import Cuesheet.Data.Reader
import Cuesheet.Number.Literal
import Cuesheet.Text.Case

/-!
# Data in attributes

An attribute is text. Where data is expected, the words `true` and `false` are booleans and plain
numbers are numbers; where a map is expected, the attribute holds one in data notation.
-/

namespace Cuesheet

/-- Why the text of an attribute is not a map. -/
inductive MapFault where
  | malformed (fault : DataFault)
  | notAMap (kind : String)
  | arith (fault : ArithFault)
  deriving DecidableEq, Repr

/-- The wording of a fault; `what` names the attribute. -/
def MapFault.message (what : String) : MapFault → String
  | .malformed fault => what ++ ": malformed JSON (" ++ fault.message ++ ")"
  | .notAMap kind => what ++ ": expected a JSON object, got " ++ kind
  | .arith fault => fault.message

namespace Attribute

/-- The value of an attribute where any data may stand. -/
def coerce (value : String) : Except ArithFault Datum :=
  if value == "true" then .ok (.bool true)
  else if value == "false" then .ok (.bool false)
  else (Number.plain? value).map fun
    | some n => .number n
    | none => .text value

/-- The map in an attribute; none if the attribute is absent or empty. -/
def map? : Option String → Except MapFault (Option Fields)
  | none => .ok none
  | some raw =>
    if raw.isEmpty then .ok none
    else
      match Datum.ofText raw with
      | .error (.arith fault) => .error (.arith fault)
      | .error fault => .error (.malformed fault)
      | .ok (.map fields) => .ok (some fields)
      | .ok d => .error (.notAMap d.kindName)

end Attribute

end Cuesheet
