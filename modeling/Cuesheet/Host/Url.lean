/-!
# References to URLs

A redirection may name its target relative to the URL that it answers. The target is found
component by component: a reference with a scheme stands for itself, one with an authority keeps
the scheme, one with a path keeps the authority, and a relative path starts beside the old one.
-/

namespace Cuesheet

/-- A URL in its parts, none of which is decoded. -/
structure Url where
  scheme : Option String := none
  authority : Option String := none
  path : String := ""
  query : Option String := none
  fragment : Option String := none
  deriving DecidableEq, Repr

namespace Url

/-- Splits at the first character with a property; the character stays in front of the rest. -/
def before (stop : Char → Bool) (cs : List Char) : List Char × List Char :=
  cs.span fun c => !stop c

def isScheme (cs : List Char) : Bool :=
  cs.head?.any Char.isAlpha
    && cs.all fun c => c.isAlphanum || c == '+' || c == '-' || c == '.'

/-- The scheme in front, if there is one, and the rest. -/
def splitScheme (cs : List Char) : Option String × List Char :=
  match before (fun c => c == ':' || c == '/' || c == '?' || c == '#') cs with
  | (scheme, ':' :: rest) =>
    if isScheme scheme then (some (String.ofList scheme), rest) else (none, cs)
  | _ => (none, cs)

/-- The authority in front, if there is one, and the rest. -/
def splitAuthority (cs : List Char) : Option String × List Char :=
  match cs with
  | '/' :: '/' :: rest =>
    let (authority, rest) := before (fun c => c == '/' || c == '?' || c == '#') rest
    (some (String.ofList authority), rest)
  | _ => (none, cs)

/-- Reads a URL or a reference. -/
def ofString (s : String) : Url :=
  let (scheme, cs) := splitScheme s.toList
  let (authority, cs) := splitAuthority cs
  let (path, cs) := before (fun c => c == '?' || c == '#') cs
  let (query, cs) :=
    match cs with
    | '?' :: rest =>
      let (query, rest) := before (· == '#') rest
      (some (String.ofList query), rest)
    | _ => (none, cs)
  let fragment :=
    match cs with
    | '#' :: rest => some (String.ofList rest)
    | _ => none
  { scheme, authority, path := String.ofList path, query, fragment }

/-- A part with the text around it, if it is there. -/
def part (front : String) (value : Option String) (back : String) : String :=
  match value with
  | some s => front ++ s ++ back
  | none => ""

def text (url : Url) : String :=
  part "" url.scheme ":" ++ part "//" url.authority "" ++ url.path ++ part "?" url.query ""
    ++ part "#" url.fragment ""

def isRooted (path : String) : Bool := path.toList.head? == some '/'

/-- Drops single dots, and double dots with what they lead out of; `done` holds the names so far,
backwards. -/
def dropDots (done : List String) : List String → List String
  | [] => done.reverse
  | ["."] => ("" :: done).reverse
  | [".."] => ("" :: done.tail).reverse
  | "." :: rest => dropDots done rest
  | ".." :: rest => dropDots done.tail rest
  | name :: rest => dropDots (name :: done) rest

/-- A rooted path without dots. -/
def normalize (path : String) : String :=
  match (path.toList.splitOn '/').map String.ofList with
  | "" :: names => "/" ++ String.intercalate "/" (dropDots [] names)
  | _ => path

/-- A relative path beside another one. -/
def merge (base : Url) (path : String) : String :=
  if base.path.isEmpty then "/" ++ path
  else
    let above := ((base.path.toList.splitOn '/').map String.ofList).dropLast
    String.intercalate "/" (above ++ [path])

/-- What a reference stands for at a URL. -/
def resolve (base : Url) (r : Url) : Url :=
  if r.scheme.isSome then { r with path := normalize r.path }
  else if r.authority.isSome then { r with scheme := base.scheme, path := normalize r.path }
  else
    let placed := { r with scheme := base.scheme, authority := base.authority }
    if r.path.isEmpty then
      { placed with path := base.path, query := r.query.or base.query }
    else if isRooted r.path then { placed with path := normalize r.path }
    else { placed with path := normalize (merge base r.path) }

/-- What a redirection from a URL leads to. A target without a fragment takes the old one. -/
def redirect (url location : String) : String :=
  let base := ofString url
  let target := base.resolve (ofString location)
  ({ target with fragment := target.fragment.or base.fragment } : Url).text

theorem resolve_of_scheme {base r : Url} (h : r.scheme.isSome = true) :
    base.resolve r = { r with path := normalize r.path } := by
  simp [resolve, h]

end Url

end Cuesheet
