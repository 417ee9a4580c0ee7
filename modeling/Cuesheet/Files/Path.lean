/-!
# File paths

A path is a root and the names below it. Repeated slashes and single dots mean nothing; double
dots are kept, because what they lead to depends on the files. Exactly two slashes in front are a
root of their own.
-/

namespace Cuesheet

structure Path where
  /-- The slashes in front: none, one or two. -/
  root : String
  names : List String
  deriving DecidableEq, Repr

namespace Path

/-- The root that a text begins with. -/
def rootOf (cs : List Char) : String :=
  match cs.takeWhile (· == '/') with
  | [] => ""
  | [_, _] => "//"
  | _ => "/"

def ofString (s : String) : Path :=
  let names := (s.toList.splitOn '/').map String.ofList
  { root := rootOf s.toList, names := names.filter fun name => name != "" && name != "." }

/-- Writes a path; the empty path is a dot. -/
def text (p : Path) : String :=
  if p.root.isEmpty && p.names.isEmpty then "." else p.root ++ String.intercalate "/" p.names

def isAbsolute (p : Path) : Bool := !p.root.isEmpty

def parent (p : Path) : Path := { p with names := p.names.dropLast }

/-- The path `q` seen from `p`; an absolute path is itself from everywhere. -/
def join (p q : Path) : Path :=
  if q.isAbsolute then q else { p with names := p.names ++ q.names }

theorem join_of_absolute {p q : Path} (h : q.isAbsolute = true) : p.join q = q := by
  simp [join, h]

end Path

end Cuesheet
