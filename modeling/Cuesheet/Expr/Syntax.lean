import Cuesheet.Expr.Token

/-!
# Time formulas

The tree of a formula. A number is kept as the decimal that was written, so a formula does not
depend on the arithmetic it is evaluated with.
-/

namespace Cuesheet

/-- A time formula. -/
inductive Expr where
  | number (value : RealLiteral) (unit : Option TimeUnit)
  | name (id : String)
  /-- A sign in front: minus if `negated`, else plus. -/
  | signed (negated : Bool) (operand : Expr)
  | binary (op : Operator) (left right : Expr)
  | call (function : String) (args : List Expr)
  | property (target : Expr) (name : String)
  deriving Repr

namespace Expr

mutual

/-- Whether a formula refers to an absolute point of the timeline: it mentions a scene, a cue, a
sibling or the timeline itself. All others are durations or offsets. -/
def isAnchored : Expr → Bool
  | .number _ _ => false
  | .name id => id == "prev" || id == "next" || id == "timeline"
  | .signed _ operand => operand.isAnchored
  | .binary _ left right => left.isAnchored || right.isAnchored
  | .call function args => function == "scene" || function == "cue" || anyAnchored args
  | .property target _ => target.isAnchored

/-- Whether one of some formulas is anchored. -/
def anyAnchored : List Expr → Bool
  | [] => false
  | e :: rest => e.isAnchored || anyAnchored rest

end

end Expr

end Cuesheet
