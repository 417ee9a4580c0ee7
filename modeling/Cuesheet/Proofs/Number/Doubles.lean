import Cuesheet.Time.Scalar
import Mathlib

/-!
# Doubles in order

Every double but NaN has a place in a linear order (`place`), and comparisons compare places, so
that the laws of orders hold of doubles as long as none is NaN. A double has a floor exactly if
it is finite, and an integer is a double exactly if it is not beyond the greatest one by half a
unit or more (`toFloat?_int`).
-/

namespace Cuesheet.Number

open Float.Model (Format UnpackedFloat)
open Float.Model.UnpackedFloat (unpack unpackExponent unpackMantissa pack isNaNBits)

/-! ## The order -/

/-- Where a number stands among the others: infinities outside, then the two signs with zero
between them, and within a sign by exponent and mantissa. NaN has no place of its own. -/
def rank : UnpackedFloat → Int ×ₗ Int ×ₗ Int
  | .infinity .negative => toLex (-2, toLex (0, 0))
  | .finite .negative m e _ => toLex (-1, toLex (-e, -m))
  | .zero _ => toLex (0, toLex (0, 0))
  | .finite .positive m e _ => toLex (1, toLex (e, m))
  | .infinity .positive => toLex (2, toLex (0, 0))
  | .notANumber => toLex (0, toLex (0, 0))

theorem compare_natCast (m n : Nat) : compare (m : Int) (n : Int) = compare m n := by
  rw [← cmp_eq_compare, ← cmp_eq_compare]
  exact Nat.strictMono_cast.cmp_map_eq m n

theorem compare_neg_neg (m n : Int) : compare (-m) (-n) = (compare m n).swap := by
  rw [← cmp_eq_compare, ← cmp_eq_compare, cmp_swap]
  exact StrictAnti.cmp_map_eq (fun _ _ => neg_lt_neg) m n

theorem compare_rank {a b : UnpackedFloat} (ha : a ≠ .notANumber) (hb : b ≠ .notANumber) :
    a.compare b = some (compare (rank a) (rank b)) := by
  rcases a with (_ | _) | _ | (_ | _) | ⟨_ | _, ma, ea, hma⟩ <;>
    rcases b with (_ | _) | _ | (_ | _) | ⟨_ | _, mb, eb, hmb⟩ <;>
    first | exact absurd rfl ha | exact absurd rfl hb | rfl | skip
  -- what is left are two finite numbers of one sign
  · show some (((compare ea eb).then (compare ma mb)).swap) =
      some ((compare (-ea) (-eb)).then (compare (-(ma : Int)) (-(mb : Int))))
    rw [compare_neg_neg, compare_neg_neg, compare_natCast, Ordering.swap_then]
  · show some ((compare ea eb).then (compare ma mb)) =
      some ((compare ea eb).then (compare (ma : Int) (mb : Int)))
    rw [compare_natCast]

/-- The place of a double among the others. -/
def place (x : Float) : Int ×ₗ Int ×ₗ Int := rank x.toModel.unpack

variable {x y z : Float}

theorem unpack_ne_nan (hx : x.isNaN = false) : x.toModel.unpack ≠ .notANumber := by
  intro h
  have hnan : x.toModel.unpack.isNaN = false := hx
  rw [h] at hnan
  cases hnan

theorem lt_eq (x y : Float) : TimeScalar.lt x y = x.toModel.unpack.lt y.toModel.unpack :=
  Bool.decide_eq_true.trans Bool.decide_eq_true

theorem le_eq (x y : Float) : TimeScalar.le x y = x.toModel.unpack.le y.toModel.unpack :=
  Bool.decide_eq_true.trans Bool.decide_eq_true

theorem lt_iff_place (hx : x.isNaN = false) (hy : y.isNaN = false) :
    TimeScalar.lt x y = true ↔ place x < place y := by
  rw [lt_eq, UnpackedFloat.lt, compare_rank (unpack_ne_nan hx) (unpack_ne_nan hy)]
  simp only [Option.some_beq_some, beq_iff_eq, compare_lt_iff_lt]
  rfl

theorem le_iff_place (hx : x.isNaN = false) (hy : y.isNaN = false) :
    TimeScalar.le x y = true ↔ place x ≤ place y := by
  rw [le_eq, UnpackedFloat.le, compare_rank (unpack_ne_nan hx) (unpack_ne_nan hy)]
  rw [Option.any_some, Ordering.isLE_iff_ne_gt]
  exact (not_congr compare_gt_iff_gt).trans not_lt

/-- Of two numbers, the one that is not above the other is at most it. -/
theorem le_of_lt_eq_false (hx : x.isNaN = false) (hy : y.isNaN = false)
    (h : TimeScalar.lt y x = false) : TimeScalar.le x y = true := by
  rw [le_iff_place hx hy, ← not_lt, ← lt_iff_place hy hx]
  exact Bool.eq_false_iff.mp h

theorem beq_iff_place (hx : x.isNaN = false) (hy : y.isNaN = false) :
    TimeScalar.beq x y = true ↔ place x = place y := by
  show x.toModel.unpack.beq y.toModel.unpack = true ↔ _
  rw [UnpackedFloat.beq, compare_rank (unpack_ne_nan hx) (unpack_ne_nan hy)]
  simp only [Option.some_beq_some, beq_iff_eq, compare_eq_iff_eq]
  rfl

theorem compare_nan (a : UnpackedFloat) : a.compare .notANumber = none := by
  rcases a with (_ | _) | _ | (_ | _) | ⟨_ | _, _, _, _⟩ <;> rfl

/-- Only numbers are at most others. -/
theorem isNaN_of_le (h : TimeScalar.le x y = true) : x.isNaN = false ∧ y.isNaN = false := by
  rw [le_eq, UnpackedFloat.le] at h
  constructor
  · show x.toModel.unpack.isNaN = false
    generalize x.toModel.unpack = a at h
    cases a <;> first | rfl | cases h
  · show y.toModel.unpack.isNaN = false
    cases hy : y.toModel.unpack with
    | notANumber => rw [hy, compare_nan] at h; cases h
    | _ => rfl

theorem le_of_lt (h : TimeScalar.lt x y = true) : TimeScalar.le x y = true := by
  rw [lt_eq, UnpackedFloat.lt, beq_iff_eq] at h
  rw [le_eq, UnpackedFloat.le, h]
  rfl

theorem le_refl (hx : x.isNaN = false) : TimeScalar.le x x = true := (le_iff_place hx hx).mpr le_rfl

protected theorem le_trans (hxy : TimeScalar.le x y = true) (hyz : TimeScalar.le y z = true) :
    TimeScalar.le x z = true := by
  obtain ⟨hx, hy⟩ := isNaN_of_le hxy
  obtain ⟨-, hz⟩ := isNaN_of_le hyz
  rw [le_iff_place hx hy] at hxy
  rw [le_iff_place hy hz] at hyz
  rw [le_iff_place hx hz]
  exact hxy.trans hyz

theorem lt_of_lt_of_le (hxy : TimeScalar.lt x y = true) (hyz : TimeScalar.le y z = true) :
    TimeScalar.lt x z = true := by
  obtain ⟨hx, hy⟩ := isNaN_of_le (le_of_lt hxy)
  obtain ⟨-, hz⟩ := isNaN_of_le hyz
  rw [lt_iff_place hx hy] at hxy
  rw [le_iff_place hy hz] at hyz
  rw [lt_iff_place hx hz]
  exact hxy.trans_le hyz

theorem le_eq_false_of_lt (h : TimeScalar.lt x y = true) : TimeScalar.le y x = false := by
  obtain ⟨hx, hy⟩ := isNaN_of_le (le_of_lt h)
  rw [lt_iff_place hx hy] at h
  rw [← Bool.not_eq_true, le_iff_place hy hx]
  exact h.not_ge

theorem lt_eq_false_of_isNaN (h : x.isNaN = true ∨ y.isNaN = true) :
    TimeScalar.lt x y = false := by
  cases hlt : TimeScalar.lt x y with
  | false => rfl
  | true =>
      obtain ⟨hx, hy⟩ := isNaN_of_le (le_of_lt hlt)
      rw [hx, hy] at h
      exact absurd h (by decide)

/-- Above zero is what is not zero or below, but for NaN. -/
protected theorem pos_iff : 0 < x ↔ ¬ x ≤ 0 ∧ x.isNaN = false := by
  have hzero : (0 : Float).isNaN = false := by decide +kernel
  constructor
  · intro h
    have h : TimeScalar.lt 0 x = true := decide_eq_true h
    exact ⟨of_decide_eq_false (le_eq_false_of_lt h), (isNaN_of_le (le_of_lt h)).2⟩
  · rintro ⟨hle, hnan⟩
    by_contra hlt
    exact hle (of_decide_eq_true (le_of_lt_eq_false hnan hzero (decide_eq_false hlt)))

/-! ## Bits -/

theorem exponent_eq (b : BitVec 64) :
    (@unpackExponent Format.binary64 b).toNat =
      b.toNat / twoTo Binary.fractionBits % twoTo 11 := by
  rw [Float.Model.UnpackedFloat.unpackExponent_def, BitVec.extractLsb'_toNat,
    Nat.shiftRight_eq_div_pow]
  rfl

theorem fraction_eq (b : BitVec 64) :
    (@unpackMantissa Format.binary64 b).toNat = b.toNat % twoTo Binary.fractionBits := by
  rw [Float.Model.UnpackedFloat.unpackMantissa_def, BitVec.extractLsb'_toNat, Nat.shiftRight_zero]
  rfl

theorem isFinite_unpack (b : BitVec 64) : (unpack Format.binary64 b).isFinite = true ↔
    b.toNat / twoTo Binary.fractionBits % twoTo 11 ≠ 2047 := by
  have hall : @unpackExponent Format.binary64 b = -1 ↔
      b.toNat / twoTo Binary.fractionBits % twoTo 11 = 2047 := by
    rw [← BitVec.toNat_inj, exponent_eq]
    rfl
  rw [ne_eq, ← hall]
  rw [unpack]
  split
  · rename_i h
    split <;> exact iff_of_false Bool.false_ne_true (not_not_intro h)
  · rename_i h
    split
    · split <;> exact iff_of_true rfl h
    · exact iff_of_true rfl h

/-- Up to those of infinity, a double has the bits that it is made of. -/
theorem toBits_ofBits {negative : Bool} {b : Nat} (h : b ≤ 2047 * twoTo Binary.fractionBits) :
    (Float.ofBits (UInt64.ofNat ((if negative then twoTo 63 else 0) + b))).toBits.toNat =
      (if negative then twoTo 63 else 0) + b := by
  have hfraction : twoTo Binary.fractionBits = 4503599627370496 := by decide
  have hexponent : twoTo 11 = 2048 := by decide
  have hsign : ∃ sign, (if negative then twoTo 63 else 0) = sign * 9223372036854775808 ∧
      sign ≤ 1 := by
    cases negative
    · exact ⟨0, by decide⟩
    · exact ⟨1, by decide⟩
  obtain ⟨sign, hsign, hle⟩ := hsign
  rw [hfraction] at h
  rw [hsign]
  generalize hbits : sign * 9223372036854775808 + b = bits
  have hsize : UInt64.size = 18446744073709551616 := rfl
  have hvec : (UInt64.ofNat bits).toBitVec.toNat = bits := by
    rw [UInt64.toNat_toBitVec, UInt64.toNat_ofNat_of_lt' (by omega)]
  have hnan : ¬ @isNaNBits Format.binary64 (UInt64.ofNat bits).toBitVec = true := by
    unfold isNaNBits
    rw [decide_eq_true_iff, ← BitVec.toNat_inj, exponent_eq, ne_eq, ← BitVec.toNat_inj,
      fraction_eq, hvec]
    show ¬ (bits / twoTo Binary.fractionBits % twoTo 11 = 2047 ∧
      ¬ bits % twoTo Binary.fractionBits = 0)
    rw [hfraction, hexponent]
    omega
  show ((unpack Format.binary64 (UInt64.ofNat bits).toBitVec).pack Format.binary64).toNat = bits
  rw [Float.Model.UnpackedFloat.pack_unpack, if_neg hnan, hvec]

theorem nearestBits_le (num den : Nat) :
    Binary.nearestBits num den ≤ 2047 * twoTo Binary.fractionBits := by
  unfold Binary.nearestBits
  split
  · exact Nat.zero_le _
  · exact Nat.min_le_right ..

theorem toBits_nearest (negative : Bool) (num den : Nat) :
    (Binary.nearest negative num den).toBits.toNat =
      (if negative then twoTo 63 else 0) + Binary.nearestBits num den :=
  toBits_ofBits (nearestBits_le num den)

/-- What is nearest to a quotient is a number. -/
theorem isNaN_nearest (negative : Bool) (num den : Nat) :
    (Binary.nearest negative num den).isNaN = false := by
  rw [Float.isNaN_eq_decide_eq_nan, decide_eq_false_iff_not]
  intro h
  have hnan : Float.nan.toBits.toNat = 2047 * twoTo Binary.fractionBits + 2 ^ 51 := by
    decide +kernel
  have hle := nearestBits_le num den
  have hbits := toBits_nearest negative num den
  have hfraction : twoTo Binary.fractionBits = 4503599627370496 := by decide
  have hsign : twoTo 63 = 9223372036854775808 := by decide
  rw [h, hnan] at hbits
  rw [hfraction] at hle hbits
  rw [hsign] at hbits
  split at hbits <;> omega

theorem isNaN_ofDecimal (negative : Bool) (num : Nat) (e : Int) :
    (Binary.ofDecimal negative num e).isNaN = false := by
  unfold Binary.ofDecimal
  dsimp only
  repeat' split
  all_goals exact isNaN_nearest ..

/-! ## Floors -/

theorem isFinite_iff_ofFloat (x : Float) :
    x.isFinite = true ↔ ∃ negative m q, Binary.ofFloat x = .finite negative m q := by
  show (unpack Format.binary64 x.toBits.toBitVec).isFinite = true ↔ _
  rw [isFinite_unpack, UInt64.toNat_toBitVec, Binary.ofFloat, Binary.ofBits]
  by_cases hall : x.toBits.toNat / twoTo Binary.fractionBits % twoTo 11 = 2047
  · rw [if_pos hall]
    refine iff_of_false (not_not_intro hall) ?_
    rintro ⟨negative, m, q, h⟩
    split at h <;> cases h
  · rw [if_neg hall]
    refine iff_of_true hall ?_
    split <;> exact ⟨_, _, _, rfl⟩

/-- A double has a floor exactly if it is finite. -/
theorem floorFloat_ok_iff (x : Float) : (∃ n, floorFloat x = .ok n) ↔ x.isFinite = true := by
  rw [isFinite_iff_ofFloat, floorFloat]
  cases Binary.ofFloat x with
  | finite negative m q => exact iff_of_true ⟨_, rfl⟩ ⟨_, _, _, rfl⟩
  | _ => exact iff_of_false nofun nofun

/-- A frame can be counted exactly if its number before rounding is finite. -/
theorem frameAt_ok_iff (time : Float) (fps : Number) :
    (∃ frame, TimeScalar.frameAt time fps = .ok frame) ↔
      ∃ rate, fps.toFloat? = .ok rate ∧ (time * rate).isFinite = true := by
  show (∃ frame, (fps.toFloat? >>= fun rate => floorFloat (time * rate)) = .ok frame) ↔ _
  cases fps.toFloat? with
  | error fault => exact iff_of_false nofun nofun
  | ok rate =>
      refine (floorFloat_ok_iff (time * rate)).trans ⟨fun h => ⟨rate, rfl, h⟩, ?_⟩
      rintro ⟨_, ⟨⟩, h⟩
      exact h

/-! ## Integers -/

/-- Where integers become too large for doubles: half a unit above the greatest of these. -/
def integerLimit : Nat := 2 ^ 1024 - 2 ^ 970

theorem leadingExponent_one {n : Nat} (hn : n ≠ 0) : Binary.leadingExponent n 1 = Nat.log2 n := by
  have hlog : Nat.log2 1 = 0 := rfl
  have hle : 1 * twoTo (Nat.log2 n) ≤ n := (Nat.one_mul _).trans_le (Nat.log2_self_le hn)
  unfold Binary.leadingExponent
  simp only [hlog, Nat.cast_zero, sub_zero, Int.natCast_nonneg, if_true, Int.toNat_natCast, hle,
    decide_true]

theorem roundDiv_one (n : Nat) : Binary.roundDiv n 1 = n := by
  unfold Binary.roundDiv
  rw [Nat.mod_one, Nat.div_one]
  rfl

/-- Fifty-three bits of an integer, rounded. -/
def leading (n : Nat) : Nat :=
  if 52 ≤ Nat.log2 n then Binary.roundDiv n (2 ^ (Nat.log2 n - 52)) else n * 2 ^ (52 - Nat.log2 n)

theorem leading_bounds {n : Nat} (hn : n ≠ 0) : 2 ^ 52 ≤ leading n ∧ leading n ≤ 2 ^ 53 := by
  have hlow : 2 ^ Nat.log2 n ≤ n := Nat.log2_self_le hn
  have hhigh : n < 2 ^ (Nat.log2 n + 1) := Nat.lt_log2_self
  unfold leading
  split
  · rename_i hlog
    have hunit : 2 ^ Nat.log2 n = 2 ^ 52 * 2 ^ (Nat.log2 n - 52) := by
      rw [← Nat.pow_add]; congr 1; omega
    obtain ⟨hle, hge⟩ := Binary.roundDiv_near n (Nat.two_pow_pos (Nat.log2 n - 52))
    rw [Nat.pow_succ, hunit] at hhigh
    rw [hunit] at hlow
    generalize 2 ^ (Nat.log2 n - 52) = unit at *
    generalize Binary.roundDiv n unit = m at *
    constructor
    · by_contra hlt
      have : (m + 1) * unit ≤ 2 ^ 52 * unit := Nat.mul_le_mul_right _ (by omega)
      rw [Nat.add_mul] at this
      omega
    · by_contra hlt
      have : (2 ^ 53 + 1) * unit ≤ m * unit := Nat.mul_le_mul_right _ (by omega)
      omega
  · rename_i hlog
    have hunit : 2 ^ 52 = 2 ^ Nat.log2 n * 2 ^ (52 - Nat.log2 n) := by
      rw [← Nat.pow_add]; congr 1; omega
    rw [Nat.pow_succ 2 52, hunit]
    rw [Nat.pow_succ] at hhigh
    constructor
    · exact Nat.mul_le_mul_right _ hlow
    · rw [Nat.mul_right_comm]
      exact Nat.mul_le_mul_right _ hhigh.le

/-- The bits of an integer as a double. -/
theorem nearestBits_one {n : Nat} (hn : n ≠ 0) :
    Binary.nearestBits n 1 =
      min ((Nat.log2 n + 1022) * 2 ^ 52 + leading n) (2047 * 2 ^ 52) := by
  obtain ⟨hlow, -⟩ := leading_bounds hn
  have hmax : max ((Nat.log2 n : Int) - Binary.fractionBits) Binary.leastExponent =
      (Nat.log2 n : Int) - 52 := by
    unfold Binary.fractionBits Binary.leastExponent
    omega
  unfold Binary.nearestBits
  rw [if_neg hn]
  simp only [leadingExponent_one hn, hmax]
  have hm : (if (0 : Int) ≤ (Nat.log2 n : Int) - 52 then
      Binary.roundDiv n (1 * twoTo ((Nat.log2 n : Int) - 52).toNat)
      else Binary.roundDiv (n * twoTo (-((Nat.log2 n : Int) - 52)).toNat) 1) = leading n := by
    unfold leading
    split
    · rename_i h
      rw [if_pos (by omega), Nat.one_mul]
      congr 3
      omega
    · rename_i h
      rw [if_neg (by omega), roundDiv_one]
      congr 3
      omega
  have hexponent : ((Nat.log2 n : Int) - 52 + 1075).toNat = Nat.log2 n + 1023 := by omega
  have hfraction : twoTo Binary.fractionBits = 2 ^ 52 := rfl
  have hsum : (Nat.log2 n + 1023) * 2 ^ 52 + (leading n - 2 ^ 52) =
      (Nat.log2 n + 1022) * 2 ^ 52 + leading n := by omega
  rw [hm, hexponent, hfraction, if_neg (Nat.not_lt.mpr hlow), hsum]

theorem roundDiv_succ_iff {n half top : Nat} (hn : n < (top + 1) * (2 * half))
    (hodd : top % 2 = 1) :
    Binary.roundDiv n (2 * half) = top + 1 ↔ (top + 1) * (2 * half) - half ≤ n := by
  have hdiv := Nat.div_add_mod n (2 * half)
  have hpos : 0 < 2 * half := Nat.pos_of_mul_pos_left (Nat.zero_lt_of_lt hn)
  have hmod := Nat.mod_lt n hpos
  have hle : n / (2 * half) ≤ top :=
    Nat.lt_succ_iff.mp (Nat.div_lt_of_lt_mul (by rwa [Nat.mul_comm]))
  unfold Binary.roundDiv
  generalize n / (2 * half) = q at *
  generalize n % (2 * half) = r at *
  rw [Nat.add_mul, Nat.one_mul] at *
  rcases Nat.lt_or_eq_of_le hle with hlt | rfl
  · have hq : 2 * half * q + 2 * half ≤ top * (2 * half) := by
      rw [Nat.mul_comm top, ← Nat.mul_succ]
      exact Nat.mul_le_mul_left _ hlt
    have hround : ¬ (if 2 * r < 2 * half then q else if 2 * half < 2 * r then q + 1
        else if q % 2 = 0 then q else q + 1) = top + 1 := by
      split_ifs <;> omega
    exact iff_of_false hround (by omega)
  · rw [Nat.mul_comm] at hdiv
    simp only
    split_ifs <;> omega

/-- An integer is rounded up to a power of two if it is below that by half a unit or less. -/
theorem leading_eq_top {n k : Nat} (hlog : Nat.log2 n = k + 53) :
    leading n = 2 ^ 53 ↔ 2 ^ (k + 54) - 2 ^ k ≤ n := by
  have hhigh : n < 2 ^ (Nat.log2 n + 1) := Nat.lt_log2_self
  have htop : 2 ^ (k + 54) = (2 ^ 53 - 1 + 1) * (2 * 2 ^ k) := by
    rw [Nat.sub_add_cancel Nat.one_le_two_pow, ← Nat.pow_succ', ← Nat.pow_add]
    congr 1
    omega
  have hlead : leading n = Binary.roundDiv n (2 * 2 ^ k) := by
    unfold leading
    rw [if_pos (by omega), hlog, ← Nat.pow_succ']
    congr 2
  rw [hlog] at hhigh
  rw [hlead, htop]
  exact roundDiv_succ_iff (htop ▸ hhigh) (by decide)

theorem leading_lt_iff {n : Nat} (hn : n ≠ 0) (k : Nat) :
    Nat.log2 n * 2 ^ 52 + leading n < (k + 55) * 2 ^ 52 ↔ n < 2 ^ (k + 54) - 2 ^ k := by
  obtain ⟨hlow, hhigh⟩ := leading_bounds hn
  have hdouble : 2 ^ (k + 54) = 2 ^ (k + 53) * 2 := Nat.pow_succ ..
  have hunit : 2 ^ k ≤ 2 ^ (k + 53) := Nat.pow_le_pow_right (by decide) (Nat.le_add_right ..)
  rcases Nat.lt_trichotomy (Nat.log2 n) (k + 53) with hlog | hlog | hlog
  · have hless : n < 2 ^ (k + 53) := (Nat.log2_lt hn).mp hlog
    exact iff_of_true (by omega) (by omega)
  · rw [← not_le, ← not_le, ← leading_eq_top hlog, hlog]
    refine not_congr ⟨fun h => ?_, fun h => ?_⟩ <;> omega
  · have hmore : 2 ^ (k + 54) ≤ n := (Nat.le_log2 hn).mp hlog
    exact iff_of_false (by omega) (Nat.not_lt.mpr ((Nat.sub_le ..).trans hmore))

theorem integerLimit_pos : 0 < integerLimit := by
  have hlt : 2 ^ 970 < 2 ^ 1024 := pow_lt_pow_right₀ Nat.one_lt_two (by decide)
  exact Nat.sub_pos_of_lt hlt

/-- The integers whose nearest double is finite. -/
theorem nearestBits_lt_iff (n : Nat) :
    Binary.nearestBits n 1 < 2047 * twoTo Binary.fractionBits ↔ n < integerLimit := by
  by_cases hn : n = 0
  · have hzero : Binary.nearestBits 0 1 = 0 := rfl
    rw [hn, hzero]
    exact iff_of_true (by decide) integerLimit_pos
  · have hfraction : twoTo Binary.fractionBits = 2 ^ 52 := rfl
    rw [integerLimit, ← leading_lt_iff hn 970, nearestBits_one hn, hfraction]
    omega

/-- Only an integer beyond doubles has none. -/
theorem toFloat?_error_iff (number : Number) : (∃ fault, number.toFloat? = .error fault) ↔
    ∃ n, number = .int n ∧ integerLimit ≤ n.natAbs := by
  cases number with
  | real x => exact iff_of_false nofun nofun
  | int n =>
      have hint : (∃ m, Number.int n = .int m ∧ integerLimit ≤ m.natAbs) ↔
          ¬ n.natAbs < integerLimit := by
        rw [not_lt]
        exact ⟨fun ⟨m, hm, h⟩ => by cases hm; exact h, fun h => ⟨n, rfl, h⟩⟩
      rw [hint, ← nearestBits_lt_iff, Number.toFloat?]
      by_cases h : Binary.nearestBits n.natAbs 1 < 2047 * twoTo Binary.fractionBits
      · rw [if_pos h]
        exact iff_of_false nofun (not_not_intro h)
      · rw [if_neg h]
        exact iff_of_true ⟨_, rfl⟩ h

theorem zero_eq : (TimeScalar.zero : Float) = 0 := by decide +kernel

/-- An integer above zero is nearest to a double other than zero. -/
theorem floatOfInt_ne_zero {n : Int} (hn : 0 < n) :
    TimeScalar.beq (Number.floatOfInt n) (TimeScalar.zero : Float) = false := by
  have habs : n.natAbs ≠ 0 := by omega
  have hle : Binary.nearestBits n.natAbs 1 ≤ 2047 * 2 ^ 52 := nearestBits_le ..
  have hpos : 0 < Binary.nearestBits n.natAbs 1 := by
    obtain ⟨hlow, -⟩ := leading_bounds habs
    rw [nearestBits_one habs]
    omega
  have hbits : (Number.floatOfInt n).toBits.toNat = Binary.nearestBits n.natAbs 1 := by
    rw [Number.floatOfInt, decide_eq_false (by omega), toBits_nearest, if_neg Bool.false_ne_true,
      Nat.zero_add]
  rw [← Bool.not_eq_true, zero_eq]
  intro hbeq
  -- the bits of the two zeros are out of reach
  have hzeros : (0 : Float).toBits.toNat = 0 ∧ (-0 : Float).toBits.toNat = 2 ^ 63 := by
    decide +kernel
  rcases (Float.beq_iff_ne_nan_and_eq.mp hbeq).2.2 with h | ⟨h, -⟩ | ⟨h, -⟩
  · rw [h, hzeros.1] at hbits
    omega
  · rw [h, hzeros.1] at hbits
    omega
  · rw [h, hzeros.2] at hbits
    omega

/-- A double above zero is not zero. -/
theorem ne_zero_of_pos (h : (0 : Float) < x) :
    TimeScalar.beq x (TimeScalar.zero : Float) = false := by
  have hlt : TimeScalar.lt 0 x = true := decide_eq_true h
  obtain ⟨hzero, hx⟩ := isNaN_of_le (le_of_lt hlt)
  rw [lt_iff_place hzero hx] at hlt
  rw [← Bool.not_eq_true, zero_eq, beq_iff_place hx hzero]
  exact hlt.ne'

/-- A number that is not zero or below is above zero. -/
theorem isPositive_of_isNonpositive {number : Number} (h : number.isNonpositive = false)
    (hnan : ∀ x, number = .real x → x.isNaN = false) : number.isPositive = true := by
  cases number with
  | int n =>
      have hn : ¬ n ≤ 0 := of_decide_eq_false h
      exact decide_eq_true (not_le.mp hn)
  | real x =>
      have hzero : (0 : Float).isNaN = false := by decide +kernel
      have hx := hnan x rfl
      have hle : ¬ TimeScalar.le x 0 = true := Bool.eq_false_iff.mp h
      rw [le_iff_place hx hzero, not_le, ← lt_iff_place hzero hx] at hle
      exact hle

/-- A number above zero has no double that is zero. -/
theorem toFloat?_ne_zero {number : Number} (hpos : number.isPositive = true)
    (h : number.toFloat? = .ok x) : TimeScalar.beq x (TimeScalar.zero : Float) = false := by
  cases number with
  | real y =>
      cases h
      exact ne_zero_of_pos (of_decide_eq_true hpos)
  | int n =>
      have heq : x = floatOfInt n := by
        rw [Number.toFloat?] at h
        by_cases hlarge : Binary.nearestBits n.natAbs 1 < 2047 * twoTo Binary.fractionBits
        · rw [if_pos hlarge] at h
          cases h
          rfl
        · rw [if_neg hlarge] at h
          cases h
      rw [heq]
      exact floatOfInt_ne_zero (of_decide_eq_true hpos)

end Cuesheet.Number
