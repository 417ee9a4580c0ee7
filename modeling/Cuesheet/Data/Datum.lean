import Cuesheet.Data.Entries
import Cuesheet.Number.Notation
import Cuesheet.Text.Quoted

/-!
# Data values

Properties, styles, markup hints and manifests hold data of no fixed shape: null, booleans,
numbers, texts, lists and maps with text keys in insertion order. `Datum.shown` is how a value
appears inside a message.
-/

namespace Cuesheet

/-- A data value. -/
inductive Datum where
  | null
  | bool (b : Bool)
  | number (n : Number)
  | text (s : String)
  | list (items : List Datum)
  | map (fields : List (String × Datum))
  deriving Inhabited, Repr

abbrev Fields := Entries String Datum

namespace Datum

/-- The kind of a value, in messages. -/
def kindName : Datum → String
  | null => "NoneType"
  | bool _ => "bool"
  | number (.int _) => "int"
  | number (.real _) => "float"
  | text _ => "str"
  | list _ => "list"
  | map _ => "dict"

/-- Whether a value is empty: null, false, zero, or without characters, items or fields. -/
def isEmpty : Datum → Bool
  | null => true
  | bool b => !b
  | number (.int n) => n == 0
  | number (.real x) => x == 0
  | text s => s.isEmpty
  | list items => items.isEmpty
  | map fields => fields.isEmpty

/-! ## In messages -/

mutual

/-- A value as it is shown in a message: texts in quotes, lists in brackets, maps in braces. -/
def shown : Datum → String
  | null => "None"
  | bool b => if b then "True" else "False"
  | number n => n.text
  | text s => Text.quoted s
  | list items => "[" ++ shownItems items ++ "]"
  | map fields => "\x7b" ++ shownFields fields ++ "\x7d"

/-- Items with commas between them. -/
def shownItems : List Datum → String
  | [] => ""
  | [d] => shown d
  | d :: rest => shown d ++ ", " ++ shownItems rest

/-- Fields with commas between them. -/
def shownFields : List (String × Datum) → String
  | [] => ""
  | [(key, d)] => Text.quoted key ++ ": " ++ shown d
  | (key, d) :: rest => Text.quoted key ++ ": " ++ shown d ++ ", " ++ shownFields rest

end

/-- A value as text: a text as it is, everything else as shown in a message. -/
def asText : Datum → String
  | text s => s
  | d => d.shown

/-! ## What is too long to be written -/

mutual

/-- Whether a value can be written: none of its integers has more digits than are converted. -/
def isWritable : Datum → Bool
  | number (.int n) => (Number.natChars n.natAbs).length ≤ ArithFault.digitLimit
  | list items => itemsWritable items
  | map fields => fieldsWritable fields
  | _ => true

def itemsWritable : List Datum → Bool
  | [] => true
  | d :: rest => isWritable d && itemsWritable rest

def fieldsWritable : List (String × Datum) → Bool
  | [] => true
  | (_, d) :: rest => isWritable d && fieldsWritable rest

end

/-- Why a value cannot be written. -/
def unwritable : String :=
  s!"Exceeds the limit ({ArithFault.digitLimit} digits) for integer string conversion; "
    ++ "use sys.set_int_max_str_digits() to increase the limit"

/-- A message that shows a value. -/
def telling (d : Datum) (message : String) : String :=
  if d.isWritable then message else unwritable

end Datum

namespace Fields

/-- Cascades the fields of a parent into those of a child, which win key by key. -/
def cascade (parent child : Option Fields) : Option Fields :=
  match parent, child with
  | none, child => child
  | some [], child => child
  | some parent, none => some parent
  | some parent, some child => some (Entries.putAll parent child)

end Fields

end Cuesheet
