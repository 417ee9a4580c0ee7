import Cuesheet.Xml.Namespace

/-!
# Reading documents

A document is an optional byte order mark, an optional declaration, and one element with its
document type in front and nothing but comments, instructions and spaces around it. The encoding
that a declaration names is of no consequence: the text is characters already.
-/

namespace Cuesheet.Xml

/-- A document that has been read: its root and the prefixes bound anywhere in it, in order. -/
structure Source where
  root : Node
  bindings : List (String × String)

namespace Source

/-! ## The declaration -/

/-- Reads `name = "value"` with a value of plain characters, spaces in front required. -/
def pseudoAttribute? (cs : List Char) : Option (List Char × List Char × List Char) :=
  if !startsWithSpace cs then none
  else
    let body := cs.dropWhile isSpace
    let name := body.takeWhile fun c => c != '=' && !isSpace c
    let rest := (body.drop name.length).dropWhile isSpace
    if name.isEmpty then none
    else
      match rest with
      | '=' :: rest =>
        match quotedValue (rest.dropWhile isSpace) with
        | .ok (value, ⟨rest, _⟩) =>
          let plain := value.all fun c =>
            c.isAlphanum || c == '.' || c == '-' || c == '_'
          if plain then some (name, value, rest) else none
        | .error _ => none
      | _ => none

def isDeclarationEnd (cs : List Char) : Bool := (cs.dropWhile isSpace).isEmpty

/-- What a declaration says about standing alone, after version and encoding. -/
def standalone? (cs : List Char) : Option Bool :=
  if isDeclarationEnd cs then some false
  else
    match pseudoAttribute? cs with
    | some (name, value, rest) =>
      if name == "standalone".toList && isDeclarationEnd rest then
        if value == "yes".toList then some true
        else if value == "no".toList then some false
        else none
      else none
    | none => none

/-- Whether an encoding name begins with a letter. -/
def isEncodingName (cs : List Char) : Bool := cs.head?.any Char.isAlpha

/-- Reads the inside of a declaration: whether the document stands alone. -/
def declaration? (cs : List Char) : Option Bool :=
  match pseudoAttribute? cs with
  | some (name, _, rest) =>
    if name == "version".toList then
      match pseudoAttribute? rest with
      | some (name, value, rest') =>
        if name == "encoding".toList then
          if isEncodingName value then standalone? rest' else none
        else standalone? rest
      | none => standalone? rest
    else none
  | none => none

/-- Reads the declaration, if there is one in front. -/
def prolog (cs : List Char) : Except Fault (Declarations × List Char) :=
  match after? "<?xml".toList cs with
  | none => .ok ({}, cs)
  | some ⟨rest, _⟩ =>
    if startsWithSpace rest then
      match until? ['?', '>'] rest with
      | none => .error .invalidToken
      | some (inside, ⟨rest', _⟩) =>
        match declaration? inside with
        | none => .error .invalidToken
        | some standalone => .ok ({ standalone }, rest')
    else .ok ({}, cs)

/-! ## Around the root -/

/-- Skips comments, instructions and spaces. -/
def skipMisc (cs : List Char) : Except Fault (Rest cs) :=
  let ⟨body, hbody⟩ := skipSpace cs
  match after? ['<', '!', '-', '-'] body, after? ['<', '?'] body with
  | some ⟨inside, _⟩, _ =>
    match comment inside with
    | .error fault => .error fault
    | .ok ⟨rest, _⟩ =>
      if hlt : rest.length < cs.length then
        match skipMisc rest with
        | .error fault => .error fault
        | .ok ⟨after, h'⟩ => .ok ⟨after, Text.length_le_of_le_of_lt h' hlt⟩
      else .error .invalidToken
  | none, some ⟨inside, _⟩ =>
    match instruction inside with
    | .error fault => .error fault
    | .ok ⟨rest, _⟩ =>
      if hlt : rest.length < cs.length then
        match skipMisc rest with
        | .error fault => .error fault
        | .ok ⟨after, h'⟩ => .ok ⟨after, Text.length_le_of_le_of_lt h' hlt⟩
      else .error .invalidToken
  | none, none => .ok ⟨body, hbody⟩
termination_by cs.length

/-- Reads the document type, if there is one in front, and what may stand around it. -/
def documentType (d : Declarations) (cs : List Char) :
    Except Fault (Declarations × List Char) :=
  match skipMisc cs with
  | .error fault => .error fault
  | .ok ⟨rest, _⟩ =>
    match after? "<!DOCTYPE".toList rest with
    | none => .ok (d, rest)
    | some ⟨inside, _⟩ =>
      match d.doctype inside with
      | .error fault => .error fault
      | .ok (d, ⟨rest, _⟩) =>
        match skipMisc rest with
        | .error fault => .error fault
        | .ok ⟨rest, _⟩ => .ok (d, rest)

/-- Reads the root element and what may stand after it. -/
def rootItem (d : Declarations) (cs : List Char) : Except Fault Item :=
  match afterChar? '<' cs with
  | none => .error (if cs.isEmpty then .noElement else .invalidToken)
  | some ⟨rest, _⟩ =>
    match Item.readElement d.entities d.rules rest with
    | .error fault => .error fault
    | .ok (item, ⟨after, _⟩) =>
      match skipMisc after with
      | .error fault => .error fault
      | .ok ⟨[], _⟩ => .ok item
      | .ok _ => .error .extraContent

/-- Drops a byte order mark in front. -/
def dropMark : List Char → List Char
  | '\uFEFF' :: rest => rest
  | cs => cs

def ofText (text : String) : Except Fault Source :=
  let cs := normalizeLines (dropMark text.toList)
  if !cs.all isLegal then .error .illegalCharacter
  else
    match prolog cs with
    | .error fault => .error fault
    | .ok (d, rest) =>
      match documentType d rest with
      | .error fault => .error fault
      | .ok (d, rest) =>
        match rootItem d rest with
        | .error fault => .error fault
        | .ok item =>
          match resolve Scope.initial [item] with
          | .error fault => .error fault
          | .ok resolved =>
            match resolved.nodes with
            | root :: _ => .ok { root, bindings := resolved.bindings }
            | [] => .error .noElement

/-- The prefix of every namespace that is bound to one, the first binding of a namespace
counting. Default namespaces have no prefix. -/
def prefixes (source : Source) : Entries String String :=
  source.bindings.foldl (fun table binding =>
    if binding.1.isEmpty || table.hasKey binding.2 then table
    else table.put binding.2 binding.1) []

end Source

end Cuesheet.Xml
