import Cuesheet.Composition.Report
import Cuesheet.Expr.Lexer
import Cuesheet.Expr.Syntax

/-!
# Formulas as data

Tokens and syntax trees in the form in which reports show them.
-/

namespace Cuesheet

/-- A unit, or null. -/
def unitDatum (unit : Option TimeUnit) : Datum := Report.text? (unit.map TimeUnit.text)

/-- A token as its kind and its value. -/
def Token.toDatum : Token → Datum
  | .number value unit =>
    .list [.text "number", .list [Report.time value.toFloat, unitDatum unit]]
  | .name id => .list [.text "ident", .text id]
  | .op o => .list [.text "op", .text o.text]
  | .openParen => .list [.text "paren", .text "("]
  | .closeParen => .list [.text "paren", .text ")"]
  | .dot => .list [.text "dot", .text "."]
  | .comma => .list [.text "comma", .text ","]

mutual

/-- A syntax tree; every node names its kind. -/
def Expr.toDatum : Expr → Datum
  | .number value unit =>
    .map [("n", .text "number"), ("value", Report.time value.toFloat), ("unit", unitDatum unit)]
  | .name id => .map [("n", .text "ident"), ("name", .text id)]
  | .signed negated e =>
    .map [("n", .text "unary"), ("op", .text (if negated then "-" else "+")),
      ("operand", e.toDatum)]
  | .binary op l r =>
    .map [("n", .text "binary"), ("op", .text op.text), ("left", l.toDatum),
      ("right", r.toDatum)]
  | .call f args =>
    .map [("n", .text "call"), ("name", .text f), ("args", .list (Expr.toData args))]
  | .property e id =>
    .map [("n", .text "prop"), ("target", e.toDatum), ("name", .text id)]

/-- Several syntax trees. -/
def Expr.toData : List Expr → List Datum
  | [] => []
  | e :: rest => e.toDatum :: Expr.toData rest

end

end Cuesheet
