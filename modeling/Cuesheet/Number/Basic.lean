import Cuesheet.Number.Binary

/-!
# Numbers

A number is an integer of any size or a double, and which of the two it is shows in how it is
written. Conversions to a double are exact roundings; an integer beyond the range of doubles has
none.
-/

namespace Cuesheet

/-- An integer or a double. -/
inductive Number where
  | int (n : Int)
  | real (x : Float)
  deriving Inhabited, Repr, BEq

/-- An operation on numbers without a result. -/
inductive ArithFault where
  /-- The floor of an infinity was asked for. -/
  | infinityToInteger
  /-- The floor of a NaN was asked for. -/
  | nanToInteger
  /-- An integer beyond the range of doubles met a double. -/
  | integerTooLarge
  /-- A number of frames was divided by a frame rate of zero. -/
  | zeroDivision
  /-- An integer literal of more digits than are converted. -/
  | tooManyDigits (count : Nat)
  deriving DecidableEq, Repr

namespace ArithFault

/-- The most digits an integer literal may have. -/
def digitLimit : Nat := 4300

def message : ArithFault → String
  | infinityToInteger => "cannot convert float infinity to integer"
  | nanToInteger => "cannot convert float NaN to integer"
  | integerTooLarge => "int too large to convert to float"
  | zeroDivision => "float division by zero"
  | tooManyDigits count =>
    s!"Exceeds the limit ({digitLimit} digits) for integer string conversion: value has "
      ++ s!"{count} digits; use sys.set_int_max_str_digits() to increase the limit"

end ArithFault

namespace Number

/-- The double nearest to an integer. -/
def floatOfInt (n : Int) : Float := Binary.nearest (n < 0) n.natAbs 1

def toFloat? : Number → Except ArithFault Float
  | .real x => .ok x
  | .int n =>
    if Binary.nearestBits n.natAbs 1 < 2047 * twoTo Binary.fractionBits then .ok (floatOfInt n)
    else .error .integerTooLarge

def floorFloat (x : Float) : Except ArithFault Int :=
  match Binary.ofFloat x with
  | .nan => .error .nanToInteger
  | .infinite _ => .error .infinityToInteger
  | .finite negative m q =>
    let signed : Int := if negative then -(m : Int) else m
    .ok (if 0 ≤ q then signed * twoTo q.toNat else signed / twoTo (-q).toNat)

/-- A double rounded to an integer, a tie to the even one. -/
def roundFloat (x : Float) : Except ArithFault Int :=
  match Binary.ofFloat x with
  | .nan => .error .nanToInteger
  | .infinite _ => .error .infinityToInteger
  | .finite negative m q =>
    let size := if 0 ≤ q then m * twoTo q.toNat else Binary.roundDiv m (twoTo (-q).toNat)
    .ok (if negative then -(size : Int) else size)

/-- The double with its fraction cut off. -/
def truncateFloat (x : Float) : Except ArithFault Int :=
  match Binary.ofFloat x with
  | .nan => .error .nanToInteger
  | .infinite _ => .error .infinityToInteger
  | .finite negative m q =>
    let size := if 0 ≤ q then m * twoTo q.toNat else m / twoTo (-q).toNat
    .ok (if negative then -(size : Int) else size)

/-- The remainder of doubles with the sign of the divisor, exact before the final adjustment.
An infinite dividend or a zero divisor leaves none. -/
def modFloat (x y : Float) : Float :=
  match Binary.ofFloat x, Binary.ofFloat y with
  | .finite negx mx qx, .finite negy my qy =>
    if my = 0 then 0.0 / 0.0
    else
      let q := min qx qy
      let rest := mx * twoTo (qx - q).toNat % (my * twoTo (qy - q).toNat)
      let signed :=
        if 0 ≤ q then Binary.nearest negx (rest * twoTo q.toNat) 1
        else Binary.nearest negx rest (twoTo (-q).toNat)
      if rest = 0 then Binary.nearest negy 0 1
      else if negx = negy then signed
      else signed + y
  | .finite negx mx _, .infinite negy =>
    if mx = 0 then Binary.nearest negy 0 1 else if negx = negy then x else y
  | _, _ => 0.0 / 0.0

/-- Whether the number is above zero. -/
def isPositive : Number → Bool
  | .int n => 0 < n
  | .real x => 0 < x

/-- Whether the number is zero or below. -/
def isNonpositive : Number → Bool
  | .int n => n ≤ 0
  | .real x => x ≤ 0

end Number

end Cuesheet
