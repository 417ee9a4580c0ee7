import Cuesheet.Data.Datum

/-!
# Writing data as text

The notation that `Datum.ofText` reads, in ASCII only: characters outside ASCII are written as
escapes of their code units. `Datum.indented` puts every item and field on a line of its own, two
blanks deeper than what it belongs to; `Datum.compact` writes everything on one line.
-/

namespace Cuesheet.Datum

/-! ## Strings and numbers -/

def unitEscapeChars (n : Nat) : List Char := '\\' :: 'u' :: Text.hexDigits 4 n

/-- One character between quotes. -/
def escapedChar (c : Char) : List Char :=
  if c == '"' then ['\\', '"']
  else if c == '\\' then ['\\', '\\']
  else if c == '\n' then ['\\', 'n']
  else if c == '\r' then ['\\', 'r']
  else if c == '\t' then ['\\', 't']
  else if c == '\x08' then ['\\', 'b']
  else if c == '\x0C' then ['\\', 'f']
  else if 0x20 ≤ c.toNat && c.toNat ≤ 0x7E || c.toNat == 0x7F then [c]
  else if c.toNat < 0x10000 then unitEscapeChars c.toNat
  else
    let n := c.toNat - 0x10000
    unitEscapeChars (0xD800 + n / 0x400) ++ unitEscapeChars (0xDC00 + n % 0x400)

/-- A text between double quotes. -/
def stringText (s : String) : String :=
  String.ofList ('"' :: s.toList.flatMap escapedChar ++ ['"'])

/-- A number; infinities and NaN are words. -/
def numberText : Number → String
  | .int n => Number.intText n
  | .real x =>
    match Number.Binary.ofFloat x with
    | .nan => "NaN"
    | .infinite negative => if negative then "-Infinity" else "Infinity"
    | .finite _ _ _ => Number.floatText x

/-! ## Values -/

/-- The layout of a list or map: brackets around its parts, and what separates them. -/
structure Layout where
  /-- What stands after the opening bracket and after each comma, at a depth. -/
  lineBreak : Nat → String
  /-- What stands between two parts besides the line break. -/
  separator : String

def Layout.oneLine : Layout := { lineBreak := fun _ => "", separator := ", " }

/-- Every part on a line of its own, two blanks deeper. -/
def Layout.lines : Layout :=
  { lineBreak := fun depth => "\n" ++ String.ofList (List.replicate (2 * depth) ' ')
    separator := "," }

mutual

/-- A value at a depth of nesting. -/
def render (layout : Layout) (depth : Nat) : Datum → String
  | null => "null"
  | bool b => if b then "true" else "false"
  | number n => numberText n
  | text s => stringText s
  | list [] => "[]"
  | list items =>
    "[" ++ renderItems layout (depth + 1) true items ++ layout.lineBreak depth ++ "]"
  | map [] => "\x7b\x7d"
  | map fields =>
    "\x7b" ++ renderFields layout (depth + 1) true fields ++ layout.lineBreak depth ++ "\x7d"

def renderItems (layout : Layout) (depth : Nat) (first : Bool) : List Datum → String
  | [] => ""
  | d :: rest =>
    (if first then "" else layout.separator) ++ layout.lineBreak depth ++ render layout depth d
      ++ renderItems layout depth false rest

def renderFields (layout : Layout) (depth : Nat) (first : Bool) :
    List (String × Datum) → String
  | [] => ""
  | (key, d) :: rest =>
    (if first then "" else layout.separator) ++ layout.lineBreak depth ++ stringText key ++ ": "
      ++ render layout depth d ++ renderFields layout depth false rest

end

/-- A value with every part on a line of its own. -/
def indented (d : Datum) : String := d.render .lines 0

def compact (d : Datum) : String := d.render .oneLine 0

end Cuesheet.Datum
