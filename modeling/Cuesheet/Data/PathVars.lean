import Cuesheet.Data.Datum
import Cuesheet.Text.Remainder
import Cuesheet.Text.Word

/-!
# Path variables

A path in a manifest may hold `${name}` for a name of word characters; the manifest says what each
name stands for. A dollar sign that does not begin such a variable stands for itself.
-/

namespace Cuesheet

/-- Why the variables of a path cannot be replaced. -/
inductive PathFault where
  | unknown (name : String)
  /-- The value of a variable, or the table of values, is of the wrong kind. -/
  | badType
  deriving DecidableEq, Repr

def PathFault.message : PathFault → String
  | .unknown name => "Unknown path variable: $\x7b" ++ name ++ "\x7d"
  | .badType => "path variables must be texts"

namespace PathVars

inductive Piece where
  | char (c : Char)
  | var (name : String)
  deriving DecidableEq, Repr

/-- The name of the variable that begins with a dollar sign in front of `cs`. -/
def name? : List Char → Option (List Char)
  | '\x7b' :: rest =>
    let name := rest.takeWhile Text.isWordChar
    if !name.isEmpty && (rest.drop name.length).head? == some '\x7d' then some name else none
  | _ => none

def pieces : List Char → List Piece
  | [] => []
  | c :: rest =>
    if c == '$' then
      match name? rest with
      | some name => .var (String.ofList name) :: pieces (rest.drop (name.length + 2))
      | none => .char c :: pieces rest
    else .char c :: pieces rest
termination_by cs => cs.length
decreasing_by
  · exact Text.length_drop_lt_cons c rest (name.length + 2)
  · exact Text.length_lt_cons c rest
  · exact Text.length_lt_cons c rest

/-- What a table of values holds for a name. A null stands for nothing; a value of another kind is
an error, but one that yields to an unknown name further on. -/
inductive Lookup where
  | text (s : String)
  | unknown
  | wrongTable
  | wrongValue

/-- Whether one text occurs in another. -/
def occursIn (part : List Char) : List Char → Bool
  | [] => part.isEmpty
  | c :: rest => part.isPrefixOf (c :: rest) || occursIn part rest

/-- Looks a name up in a table of values. -/
def lookup (paths : Datum) (name : String) : Lookup :=
  match paths with
  | .map fields =>
    match Entries.value? fields name with
    | none => .unknown
    | some (.text s) => .text s
    | some .null => .text ""
    | some _ => .wrongValue
  | .list items =>
    if items.any fun d => match d with | .text s => s == name | _ => false
    then .wrongTable else .unknown
  | .text s => if occursIn name.toList s.toList then .wrongTable else .unknown
  | _ => .wrongTable

/-- Replaces the variables; `bad` tells whether a value of the wrong kind was met. -/
def fill (paths : Datum) : (bad : Bool) → List Piece → Except PathFault (List Char)
  | bad, [] => if bad then .error .badType else .ok []
  | bad, .char c :: rest => (fill paths bad rest).map (c :: ·)
  | bad, .var name :: rest =>
    match lookup paths name with
    | .text s => (fill paths bad rest).map (s.toList ++ ·)
    | .unknown => .error (.unknown name)
    | .wrongTable => .error .badType
    | .wrongValue => fill paths true rest

/-- The path with its variables replaced. -/
def resolve (paths : Datum) (path : String) : Except PathFault String :=
  (fill paths false (pieces path.toList)).map String.ofList

end PathVars

end Cuesheet
