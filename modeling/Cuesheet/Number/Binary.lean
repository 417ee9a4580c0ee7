/-!
# The exact value of a binary floating-point number

A finite double is `± m · 2 ^ q` for a natural `m` below `2 ^ 53`. This module reads that form
off the bits and rounds a quotient of naturals to the nearest double, a tie going to the even
neighbour, all in exact arithmetic; nothing here depends on the hardware's operations.
-/

namespace Cuesheet.Number

/-- The power `2 ^ n`. -/
abbrev twoTo (n : Nat) : Nat := Nat.pow 2 n

/-- The power `10 ^ n`. -/
abbrev tenTo (n : Nat) : Nat := Nat.pow 10 n

/-- What a double stands for. -/
inductive Binary where
  | nan
  | infinite (negative : Bool)
  /-- The value `± m · 2 ^ q`. -/
  | finite (negative : Bool) (m : Nat) (q : Int)
  deriving DecidableEq, Repr

namespace Binary

def fractionBits : Nat := 52

/-- The exponent of the smallest positive double. -/
def leastExponent : Int := -1074

/-- Reads the sixty-four bits of a double. -/
def ofBits (bits : Nat) : Binary :=
  let negative : Bool := twoTo 63 ≤ bits
  let exponent : Nat := bits / twoTo fractionBits % twoTo 11
  let fraction : Nat := bits % twoTo fractionBits
  if exponent = 2047 then
    if fraction = 0 then .infinite negative else .nan
  else if exponent = 0 then .finite negative fraction leastExponent
  else .finite negative (twoTo fractionBits + fraction) ((exponent : Int) - 1075)

/-- The value of a double. -/
def ofFloat (x : Float) : Binary := ofBits x.toBits.toNat

/-- A natural quotient rounded to a natural number, a tie to the even one. -/
def roundDiv (num den : Nat) : Nat :=
  let quotient := num / den
  let rest := 2 * (num % den)
  if rest < den then quotient
  else if den < rest then quotient + 1
  else if quotient % 2 = 0 then quotient else quotient + 1

/-- The rounded quotient is within half a unit of the quotient. -/
theorem roundDiv_near (num : Nat) {den : Nat} (hden : 0 < den) :
    2 * (roundDiv num den * den) ≤ 2 * num + den ∧ 2 * num ≤ 2 * (roundDiv num den * den) + den := by
  have hdiv := Nat.div_add_mod num den
  have hmod := Nat.mod_lt num hden
  have hcomm : num / den * den = den * (num / den) := Nat.mul_comm _ _
  have hsucc : (num / den + 1) * den = den * (num / den) + den := by
    rw [Nat.add_mul, Nat.one_mul, hcomm]
  unfold roundDiv
  simp only
  split
  · omega
  · split
    · omega
    · split <;> omega

/-- The exponent of the leading bit of a positive quotient: the greatest `e` with
`2 ^ e ≤ num / den`. -/
def leadingExponent (num den : Nat) : Int :=
  let guess : Int := (Nat.log2 num : Int) - Nat.log2 den
  let atLeast : Bool :=
    if 0 ≤ guess then den * twoTo guess.toNat ≤ num else den ≤ num * twoTo (-guess).toNat
  if atLeast then guess else guess - 1

/-- The bits of the double nearest to a quotient of naturals; beyond the greatest finite double
the bits of infinity. -/
def nearestBits (num den : Nat) : Nat :=
  if num = 0 then 0
  else
    let q : Int := max (leadingExponent num den - fractionBits) leastExponent
    let m :=
      if 0 ≤ q then roundDiv num (den * twoTo q.toNat) else roundDiv (num * twoTo (-q).toNat) den
    let bits := if m < twoTo fractionBits then m
      else (q + 1075).toNat * twoTo fractionBits + (m - twoTo fractionBits)
    min bits (2047 * twoTo fractionBits)

/-- The double nearest to `± num / den`. -/
def nearest (negative : Bool) (num den : Nat) : Float :=
  Float.ofBits (UInt64.ofNat ((if negative then twoTo 63 else 0) + nearestBits num den))

/-- The double nearest to `± num · 10 ^ e`. Exponents far outside the range of doubles are
decided by the size alone. -/
def ofDecimal (negative : Bool) (num : Nat) (e : Int) : Float :=
  let size : Int := (Nat.log2 num : Int) * 3 / 10 + e
  if num = 0 then nearest negative 0 1
  else if 400 < size then nearest negative (twoTo 1100) 1
  else if size + (Nat.log2 num : Int) / 100 < -400 then nearest negative 0 1
  else if 0 ≤ e then nearest negative (num * tenTo e.toNat) 1
  else nearest negative num (tenTo (-e).toNat)

end Binary

end Cuesheet.Number
