import Cuesheet.Number.Binary

/-!
# The shortest decimal that reads back

A double is the nearest one for every real in an interval around its value, ends included when
its significand is even. Among the decimals in that interval the ones with the fewest digits are
preferred, and among those the one nearest to the value. For each number of digits it is enough
to look at the two neighbours of the value on that decimal grid.
-/

namespace Cuesheet.Number

/-- A positive decimal: digits `d₁ d₂ …` and the exponent `e` of the first, for the value
`d₁.d₂… · 10 ^ e`. -/
structure Decimal where
  digits : List Nat
  exponent : Int
  deriving DecidableEq, Repr

namespace Decimal

/-- The digits of a natural number, most significant first; zero has none. -/
def digitsOf (n : Nat) : List Nat := (go n []).2
where
  /-- Pushes the digits of `n` in front of those already written. -/
  go (n : Nat) (written : List Nat) : Nat × List Nat :=
    if h : n = 0 then (0, written)
    else go (n / 10) (n % 10 :: written)
  termination_by n
  decreasing_by omega

/-- The greatest `e` with `10 ^ e ≤ num / den`, for a positive quotient. -/
def leadingExponent (num den : Nat) : Int :=
  let low : Int := ((Nat.log2 num : Int) - Nat.log2 den - 1) * 30103 / 100000 - 1
  let reaches (e : Int) : Bool :=
    if 0 ≤ e then den * tenTo e.toNat ≤ num else den ≤ num * tenTo (-e).toNat
  if reaches (low + 3) then low + 3
  else if reaches (low + 2) then low + 2
  else if reaches (low + 1) then low + 1
  else low

/-- A quotient as a pair after division by `10 ^ k`. -/
def scaled (num den : Nat) (k : Int) : Nat × Nat :=
  if 0 ≤ k then (num, den * tenTo k.toNat) else (num * tenTo (-k).toNat, den)

/-- The decimal `n · 10 ^ k` without zeros at the end. -/
def ofScaled (n : Nat) (k : Int) : Decimal :=
  let digits := digitsOf n
  { digits := (digits.reverse.dropWhile (· == 0)).reverse
    exponent := k + digits.length - 1 }

end Decimal

namespace Binary

/-- The interval of reals that round to `m · 2 ^ q`, and the value itself: numerators of its lower
end, the value and its upper end over a common denominator. -/
def interval (m : Nat) (q : Int) : Nat × Nat × Nat × Nat :=
  -- below a power of two the doubles are twice as dense
  let lower := if m = twoTo fractionBits && leastExponent < q then 4 * m - 1 else 4 * m - 2
  let upper := 4 * m + 2
  if 0 ≤ q then (lower * twoTo q.toNat, 4 * m * twoTo q.toNat, upper * twoTo q.toNat, 4)
  else (lower, 4 * m, upper, 4 * twoTo (-q).toNat)

/-- The decimal with `count` digits that reads back as `m · 2 ^ q`, the nearest if there are two. -/
def withDigits? (m : Nat) (q : Int) (count : Nat) : Option Decimal :=
  let (lower, value, upper, den) := interval m q
  let k := Decimal.leadingExponent value den - (count - 1 : Int)
  let (value', den') := Decimal.scaled value den k
  let (lower', _) := Decimal.scaled lower den k
  let (upper', _) := Decimal.scaled upper den k
  let closed := m % 2 = 0
  let inside (n : Nat) : Bool :=
    if closed then lower' ≤ n * den' && n * den' ≤ upper'
    else lower' < n * den' && n * den' < upper'
  let n := value' / den'
  match inside n, inside (n + 1) with
  | false, false => none
  | true, false => some (Decimal.ofScaled n k)
  | false, true => some (Decimal.ofScaled (n + 1) k)
  | true, true => some (Decimal.ofScaled (roundDiv value' den') k)

/-- The shortest decimal that reads back as the positive `m · 2 ^ q`. -/
def shortest (m : Nat) (q : Int) : Decimal :=
  ((List.range 17).findSome? fun i => withDigits? m q (i + 1)).getD ⟨[], 0⟩

end Binary

end Cuesheet.Number
