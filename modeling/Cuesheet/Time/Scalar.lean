import Cuesheet.Number.Literal
import Cuesheet.Number.Notation

/-!
# Arithmetic on times

Times run on doubles, but hardly anything said about them depends on that: resolution, playback
and sampling only use the operations collected here. Everything that computes with times is
written over this class, so that it can also be reasoned about with exact times.
-/

namespace Cuesheet

/-- The operations on times. -/
class TimeScalar (T : Type) where
  /-- The time a literal spells. -/
  ofLiteral : RealLiteral → T
  /-- The time of a number; an integer may be too large to be one. -/
  ofNumber : Number → Except ArithFault T
  /-- The time of a whole number of seconds, rounded. -/
  ofInt : Int → T
  add : T → T → T
  sub : T → T → T
  mul : T → T → T
  div : T → T → T
  neg : T → T
  lt : T → T → Bool
  le : T → T → Bool
  beq : T → T → Bool
  /-- The greatest integer not above the time. -/
  floor : T → Except ArithFault Int
  /-- The nearest integer, a tie to the even one. -/
  round : T → Except ArithFault Int
  /-- The remainder with the sign of the divisor. -/
  mod : T → T → T
  /-- The time in messages, in general notation. -/
  text : T → String
  /-- The time in messages, with all its digits. -/
  fullText : T → String

namespace TimeScalar

variable {T : Type} [TimeScalar T]

def zero : T := ofInt 0

def one : T := ofInt 1

/-- The earlier of two times, the first if neither is below the other. -/
def earlier (a b : T) : T := if lt b a then b else a

/-- The later of two times, the first if neither is above the other. -/
def later (a b : T) : T := if lt a b then b else a

/-- The latest of some times, the first among equals. -/
def latest? : List T → Option T
  | [] => none
  | t :: rest => some (rest.foldl later t)

def frameAt (time : T) (fps : Number) : Except ArithFault Int := do
  floor (mul time (← ofNumber fps))

/-- The later of two ends, where an end may be missing. -/
def laterEnd : Option T → Option T → Option T
  | none, b => b
  | some a, none => some a
  | some a, some b => some (later a b)

end TimeScalar

/-- Times as doubles. -/
instance : TimeScalar Float where
  ofLiteral := RealLiteral.toFloat
  ofNumber := Number.toFloat?
  ofInt := Number.floatOfInt
  add := (· + ·)
  sub := (· - ·)
  mul := (· * ·)
  div := (· / ·)
  neg := (- ·)
  lt a b := a < b
  le a b := a ≤ b
  beq a b := a == b
  floor := Number.floorFloat
  round := Number.roundFloat
  mod := Number.modFloat
  text x := Number.generalText x
  fullText x := Number.floatText x

end Cuesheet
