import Cuesheet.Proofs.Number.Signs

/-!
# Sums that go up

What is not below zero can be added to a double without going below it, however the sum is rounded
(`le_add`): rounding skips no double (`round_spec`). Only infinity is lost to minus infinity.
-/

namespace Cuesheet.Number

open Float.Model (Format UnpackedFloat totalExponent)
open Float.Model.UnpackedFloat (Sign unpack unpackExponent unpackMantissa unpackSign pack
  packComponents roundWithAccuracy shiftToTargetExponent shiftToExponent decreaseExponent
  ExtendedMantissa)

/-! ## Units -/

/-- How many times the least double above zero a number is. -/
def units (m : Nat) (e : Int) : Nat := m * 2 ^ (e + 1074).toNat

theorem units_decreaseExponent (m : Nat) (e : Int) {t : Int} (ht : -1074 ≤ t) :
    units (decreaseExponent m e t).1 (decreaseExponent m e t).2 = units m e := by
  unfold units decreaseExponent
  dsimp only
  rw [Nat.shiftLeft_eq, Nat.mul_assoc, ← Nat.pow_add]
  congr 2
  omega

/-- What has fewer units is not above. -/
theorem lex_of_units {sign sign' : Sign} {m m' : Nat} {e e' : Int} {hm : 0 < m} {hm' : 0 < m'}
    (htrim : Trim (.finite sign m e hm)) (htrim' : Trim (.finite sign' m' e' hm'))
    (h : units m e ≤ units m' e') : e < e' ∨ e = e' ∧ m ≤ m' := by
  obtain ⟨-, hleast, hleading⟩ := htrim
  obtain ⟨hdigits', hleast', -⟩ := htrim'
  unfold units at h
  rcases lt_trichotomy e e' with hlt | rfl | hgt
  · exact .inl hlt
  · exact .inr ⟨rfl, Nat.le_of_mul_le_mul_right h (Nat.two_pow_pos _)⟩
  · exfalso
    obtain ⟨k, hk⟩ : ∃ k, (e + 1074).toNat = (e' + 1074).toNat + 1 + k :=
      ⟨(e - e' - 1).toNat, by omega⟩
    have hfull := hleading (by omega)
    rw [hk, Nat.pow_add, Nat.pow_succ] at h
    have hpos : 0 < 2 ^ (e' + 1074).toNat := Nat.two_pow_pos _
    have hone : 1 ≤ 2 ^ k := Nat.one_le_two_pow
    generalize 2 ^ (e' + 1074).toNat = u at h hpos
    have hlow : 2 ^ 52 * (u * 2 * 1) ≤ m * (u * 2 * 2 ^ k) :=
      Nat.mul_le_mul hfull (Nat.mul_le_mul_left _ hone)
    have hhigh : m' * u < 2 ^ 53 * u := Nat.mul_lt_mul_of_pos_right hdigits' hpos
    omega

theorem isLE_of_lex {e e' : Int} {m m' : Nat} (h : e < e' ∨ e = e' ∧ m ≤ m') :
    ((compare e e').then (compare m m')).isLE = true := by
  rcases h with h | ⟨rfl, h⟩
  · rw [compare_lt_iff_lt.mpr h]
    rfl
  · rw [compare_eq_iff_eq.mpr rfl, Ordering.eq_then, Ordering.isLE_iff_ne_gt]
    exact fun hgt => not_lt.mpr h (compare_gt_iff_gt.mp hgt)

/-! ## Rounding -/

theorem shiftRight_mantissa (em : ExtendedMantissa) (k : Nat) :
    (em >>> k).mantissa = em.mantissa / 2 ^ k := by
  induction k with
  | zero => exact (Nat.div_one _).symm
  | succ k ih =>
      show (em >>> k).mantissa / 2 = _
      rw [ih, Nat.div_div_eq_div_mul, ← Nat.pow_succ]

/-- Nothing is lost where zeros are shifted out. -/
theorem shiftRight_exact {m k : Nat} (h : 2 ^ k ∣ m) :
    (ExtendedMantissa.mk m false false) >>> k = ⟨m / 2 ^ k, false, false⟩ := by
  induction k with
  | zero => exact congrArg (ExtendedMantissa.mk · false false) (Nat.div_one m).symm
  | succ k ih =>
      have hk : 2 ^ k ∣ m := (Nat.pow_dvd_pow 2 (Nat.le_succ k)).trans h
      have heven : m / 2 ^ k % 2 = 0 :=
        Nat.mod_eq_zero_of_dvd ((Nat.dvd_div_iff_mul_dvd hk).mpr (Nat.pow_succ 2 k ▸ h))
      show ((ExtendedMantissa.mk m false false) >>> k).shiftRightOne = _
      rw [ih hk, ExtendedMantissa.shiftRightOne, heven, Nat.div_div_eq_div_mul, ← Nat.pow_succ]
      rfl

theorem roundedMantissa_bounds (em : ExtendedMantissa) :
    em.mantissa ≤ em.roundedMantissa ∧ em.roundedMantissa ≤ em.mantissa + 1 := by
  obtain ⟨m, roundBit, stickyBit⟩ := em
  cases roundBit <;> cases stickyBit
  · exact ⟨le_rfl, Nat.le_succ m⟩
  · exact ⟨le_rfl, Nat.le_succ m⟩
  · show m ≤ m + m % 2 ∧ m + m % 2 ≤ m + 1
    omega
  · exact ⟨Nat.le_succ m, le_rfl⟩

/-- A rounded quotient is between the integers next to the quotient. -/
theorem rounded_between (m k : Nat) :
    (∀ n, n * 2 ^ k ≤ m → n ≤ ((ExtendedMantissa.mk m false false) >>> k).roundedMantissa) ∧
      ∀ n, m ≤ n * 2 ^ k → ((ExtendedMantissa.mk m false false) >>> k).roundedMantissa ≤ n := by
  have hpos : 0 < 2 ^ k := Nat.two_pow_pos k
  obtain ⟨hlow, hhigh⟩ := roundedMantissa_bounds ((ExtendedMantissa.mk m false false) >>> k)
  rw [shiftRight_mantissa] at hlow hhigh
  constructor
  · intro n hn
    exact ((Nat.le_div_iff_mul_le hpos).mpr hn).trans hlow
  · intro n hn
    by_cases hdvd : 2 ^ k ∣ m
    · rw [shiftRight_exact hdvd]
      exact Nat.div_le_of_le_mul (by rwa [Nat.mul_comm])
    · refine hhigh.trans (Nat.div_lt_of_lt_mul ?_)
      rw [Nat.mul_comm]
      refine lt_of_le_of_ne hn ?_
      rintro rfl
      exact hdvd (Nat.dvd_mul_left _ _)

theorem targetExponent_eq (m : Nat) (e : Int) :
    Format.binary64.targetExponent (totalExponent m e) = max (m.log2 + e - 52) (-1074) := by
  have hleast : Format.binary64.minExponent = -1074 := rfl
  have hdigits : (Format.binary64.mantissaBits : Int) = 53 := rfl
  rw [Format.targetExponent, totalExponent, hleast, hdigits]
  congr 1
  omega

/-- What fits is not shifted. -/
theorem shiftToTargetExponent_of_lt {m : Nat} {e : Int} (hm : m < 2 ^ 53) (he : -1074 ≤ e) :
    shiftToTargetExponent .binary64 m e .exact = (⟨m, false, false⟩, e) := by
  have hlog : m.log2 ≤ 52 := by
    by_cases hzero : m = 0
    · rw [hzero]
      decide
    · exact Nat.lt_succ_iff.mp ((Nat.log2_lt hzero).mpr hm)
  have hshift : (max ((m.log2 : Int) + e - 52) (-1074) - e).toNat = 0 := by omega
  unfold shiftToTargetExponent shiftToExponent
  dsimp only
  rw [targetExponent_eq, hshift, Nat.cast_zero, add_zero]
  rfl

theorem shiftToTargetExponent_top {e : Int} (he : -1074 ≤ e) :
    shiftToTargetExponent .binary64 (2 ^ 53) e .exact = (⟨2 ^ 52, false, false⟩, e + 1) := by
  have hshift : (max (((2 ^ 53 : Nat).log2 : Int) + e - 52) (-1074) - e).toNat = 1 := by
    rw [Nat.log2_two_pow]
    omega
  unfold shiftToTargetExponent shiftToExponent
  dsimp only
  rw [targetExponent_eq, hshift]
  rfl

/-- Of the numbers with so many digits, none is between a number and what it is rounded to. -/
structure Nearest (m : Nat) (e : Int) (r : Nat) (t : Int) : Prop where
  below : ∀ n a, n < 2 ^ 53 → -1074 ≤ a → units n a ≤ units m e → units n a ≤ units r t
  above : ∀ n a, n < 2 ^ 53 → -1074 ≤ a → units m e ≤ units n a → units r t ≤ units n a

theorem nearest_of_between {m r k : Nat} {e : Int} (he : -1074 ≤ e)
    (hlow : ∀ n, n * 2 ^ k ≤ m → n ≤ r) (hhigh : ∀ n, m ≤ n * 2 ^ k → r ≤ n)
    (hlong : e + k = -1074 ∨ 2 ^ 52 * 2 ^ k ≤ m) : Nearest m e r (e + k) := by
  have hshift : (e + k + 1074).toNat = k + (e + 1074).toNat := by omega
  -- a number with a smaller exponent is below all that have the greater exponent and all digits
  have hsmall : ∀ n a : Nat, n < 2 ^ 53 → a < k + (e + 1074).toNat →
      2 ^ 52 * 2 ^ k ≤ m ∧ n * 2 ^ a < 2 ^ 52 * 2 ^ (k + (e + 1074).toNat) := by
    intro n a hn ha
    have hlong := hlong.resolve_left fun h => by omega
    refine ⟨hlong, ?_⟩
    calc n * 2 ^ a < 2 ^ 53 * 2 ^ a := Nat.mul_lt_mul_of_pos_right hn (Nat.two_pow_pos a)
      _ = 2 ^ 52 * 2 ^ (a + 1) := by rw [Nat.pow_succ 2 52, Nat.pow_succ 2 a]; ring
      _ ≤ 2 ^ 52 * 2 ^ (k + (e + 1074).toNat) :=
        Nat.mul_le_mul_left _ (Nat.pow_le_pow_right (by decide) ha)
  have hlarge : ∀ n a : Nat, k + (e + 1074).toNat ≤ a → ∃ n', n * 2 ^ a =
      n' * 2 ^ k * 2 ^ (e + 1074).toNat := by
    intro n a ha
    obtain ⟨j, rfl⟩ := Nat.exists_eq_add_of_le ha
    exact ⟨n * 2 ^ j, by rw [Nat.pow_add, Nat.pow_add]; ring⟩
  have hpos : 0 < 2 ^ (e + 1074).toNat := Nat.two_pow_pos _
  constructor
  · intro n a hn _ hle
    rw [units, units, hshift] at *
    rcases Nat.lt_or_ge (a + 1074).toNat (k + (e + 1074).toNat) with ha | ha
    · obtain ⟨hfull, hlt⟩ := hsmall n _ hn ha
      exact hlt.le.trans (Nat.mul_le_mul_right _ (hlow _ hfull))
    · obtain ⟨n', hn'⟩ := hlarge n _ ha
      rw [hn'] at hle ⊢
      rw [Nat.pow_add, ← Nat.mul_assoc]
      have hm := Nat.le_of_mul_le_mul_right hle hpos
      exact Nat.mul_le_mul_right _ (Nat.mul_le_mul_right _ (hlow n' hm))
  · intro n a hn _ hle
    rw [units, units, hshift] at *
    rcases Nat.lt_or_ge (a + 1074).toNat (k + (e + 1074).toNat) with ha | ha
    · obtain ⟨hfull, hlt⟩ := hsmall n _ hn ha
      have hbelow := Nat.mul_le_mul_right (2 ^ (e + 1074).toNat) hfull
      rw [Nat.mul_assoc, ← Nat.pow_add] at hbelow
      exact absurd (hbelow.trans hle) (not_le.mpr hlt)
    · obtain ⟨n', hn'⟩ := hlarge n _ ha
      rw [hn'] at hle ⊢
      rw [Nat.pow_add, ← Nat.mul_assoc]
      have hm := Nat.le_of_mul_le_mul_right hle hpos
      exact Nat.mul_le_mul_right _ (Nat.mul_le_mul_right _ (hhigh n' hm))

/-- A number with enough digits, or the least exponent, is rounded to one that has no more than it
may, and none is nearer. -/
theorem roundWithAccuracy_spec {m : Nat} {e : Int} (sign : Sign) (hm : 0 < m) (he : -1074 ≤ e)
    (hlong : 52 ≤ m.log2 ∨ e = -1074) :
    ∃ r t, ∃ hr : 0 < r, roundWithAccuracy .binary64 sign m e .exact = .finite sign r t hr ∧
      Trim (.finite sign r t hr) ∧ Nearest m e r t := by
  obtain ⟨k, hk⟩ : ∃ k : Nat, max ((m.log2 : Int) + e - 52) (-1074) = e + k :=
    ⟨(max ((m.log2 : Int) + e - 52) (-1074) - e).toNat, by omega⟩
  have hshift : (e + (k : Int) - e).toNat = k := by omega
  have hfirst : shiftToTargetExponent .binary64 m e .exact =
      ((ExtendedMantissa.mk m false false) >>> k, e + k) := by
    unfold shiftToTargetExponent shiftToExponent
    dsimp only
    rw [targetExponent_eq, hk, hshift]
    rfl
  obtain ⟨hlow, hhigh⟩ := rounded_between m k
  generalize hr : ((ExtendedMantissa.mk m false false) >>> k).roundedMantissa = r at hlow hhigh
  have hlogLow : 2 ^ m.log2 ≤ m := Nat.log2_self_le hm.ne'
  have hlogHigh : m < 2 ^ (m.log2 + 1) := Nat.lt_log2_self
  have hmost : r ≤ 2 ^ 53 := by
    refine hhigh _ (hlogHigh.le.trans ?_)
    rw [← Nat.pow_add]
    exact Nat.pow_le_pow_right (by decide) (by omega)
  have hfull : e + k = -1074 ∨ 2 ^ 52 * 2 ^ k ≤ m := by
    by_cases hleast : e + k = -1074
    · exact .inl hleast
    · refine .inr (le_trans ?_ hlogLow)
      rw [← Nat.pow_add]
      exact Nat.pow_le_pow_right (by decide) (by omega)
  have hnearest : Nearest m e r (e + k) := nearest_of_between he hlow hhigh hfull
  have hdigits : -1074 < e + k → 2 ^ 52 ≤ r := fun h => hlow _ (hfull.resolve_left (by omega))
  have hpos : 0 < r := by
    rcases hfull with hleast | hfull
    · obtain rfl : k = 0 := by omega
      exact hlow 1 (by omega)
    · exact Nat.lt_of_lt_of_le (by decide) (hlow _ hfull)
  have hround : roundWithAccuracy .binary64 sign m e .exact =
      if h : (shiftToTargetExponent .binary64 r (e + k) .exact).1.mantissa = 0 then .zero sign
      else .finite sign (shiftToTargetExponent .binary64 r (e + k) .exact).1.mantissa
        (shiftToTargetExponent .binary64 r (e + k) .exact).2 (Nat.pos_of_ne_zero h) := by
    rw [roundWithAccuracy, hfirst]
    dsimp only
    rw [hr]
  rcases hmost.lt_or_eq with hlt | rfl
  · refine ⟨r, e + k, hpos, ?_, ⟨hlt, by omega, hdigits⟩, hnearest⟩
    simp only [hround, shiftToTargetExponent_of_lt hlt (by omega : -1074 ≤ e + (k : Int)),
      hpos.ne', dite_false]
  · refine ⟨2 ^ 52, e + k + 1, by decide, ?_, ⟨by decide, by omega, fun _ => le_rfl⟩, ?_⟩
    · simp only [hround, shiftToTargetExponent_top (by omega : -1074 ≤ e + (k : Int))]
      rfl
    · have hunits : units (2 ^ 52) (e + k + 1) = units (2 ^ 53) (e + k) := by
        unfold units
        have hsucc : (e + (k : Int) + 1 + 1074).toNat = (e + (k : Int) + 1074).toNat + 1 := by
          omega
        rw [hsucc, Nat.pow_succ]
        ring
      exact ⟨fun n a hn ha h => hunits ▸ hnearest.below n a hn ha h,
        fun n a hn ha h => hunits ▸ hnearest.above n a hn ha h⟩

/-- Rounding skips no number that has no more digits than it may. -/
theorem round_spec {m : Nat} {e : Int} (sign : Sign) (hm : 0 < m) (he : -1074 ≤ e) :
    ∃ r t, ∃ hr : 0 < r, UnpackedFloat.round .binary64 sign m e = .finite sign r t hr ∧
      Trim (.finite sign r t hr) ∧ Nearest m e r t := by
  have hunits := units_decreaseExponent m e (le_max_right ((m.log2 : Int) + e - 52) (-1074))
  have hround : UnpackedFloat.round .binary64 sign m e =
      roundWithAccuracy .binary64 sign
        (decreaseExponent m e (max ((m.log2 : Int) + e - 52) (-1074))).1
        (decreaseExponent m e (max ((m.log2 : Int) + e - 52) (-1074))).2 .exact := by
    rw [UnpackedFloat.round, targetExponent_eq]
  obtain ⟨j, hj⟩ : ∃ j, (e - max ((m.log2 : Int) + e - 52) (-1074)).toNat = j := ⟨_, rfl⟩
  rw [decreaseExponent, hj] at hunits hround
  dsimp only at hunits hround
  rw [Nat.shiftLeft_eq] at hunits hround
  have hlog : (m * 2 ^ j).log2 = m.log2 + j := by
    rw [Nat.log2_eq_iff (Nat.mul_pos hm (Nat.two_pow_pos j)).ne']
    have hlow := Nat.log2_self_le hm.ne'
    have hhigh : m < 2 ^ (m.log2 + 1) := Nat.lt_log2_self
    rw [Nat.pow_add, Nat.add_right_comm, Nat.pow_add 2 (m.log2 + 1)]
    exact ⟨Nat.mul_le_mul_right _ hlow, Nat.mul_lt_mul_of_pos_right hhigh (Nat.two_pow_pos j)⟩
  obtain ⟨r, t, hr, heq, htrim, hnearest⟩ := roundWithAccuracy_spec sign
    (Nat.mul_pos hm (Nat.two_pow_pos j)) (by omega : -1074 ≤ e - (j : Int)) (by omega)
  refine ⟨r, t, hr, hround.trans heq, htrim, ?_, ?_⟩
  · exact fun n a hn ha h => hnearest.below n a hn ha (hunits ▸ h)
  · exact fun n a hn ha h => hnearest.above n a hn ha (hunits ▸ h)

/-! ## Packing -/

/-- A number that is not rounded when it is packed, and does not become infinite. -/
structure Fits (a : UnpackedFloat) : Prop where
  trim : Trim a
  small : ∀ sign m e h, a = .finite sign m e h → e ≤ 971

theorem fits_unpack (b : BitVec 64) : Fits (unpack .binary64 b) := by
  refine ⟨trim_unpack b, fun sign m e h heq => ?_⟩
  have hbias : (Format.binary64.exponentBias : Int) = 1023 := rfl
  have hfraction : (Format.binary64.mantissaBitsWithoutImplicit : Int) = 52 := rfl
  have hlt : (@unpackExponent .binary64 b).toNat < 2 ^ 11 := (@unpackExponent .binary64 b).isLt
  unfold unpack at heq
  dsimp only at heq
  split at heq
  · split at heq <;> cases heq
  · rename_i hall
    have hexponent : (@unpackExponent .binary64 b).toNat ≠ 2047 := fun h =>
      hall (BitVec.eq_of_toNat_eq h)
    rw [hbias, hfraction] at heq
    split at heq
    · rename_i hzero
      have hnone : (@unpackExponent .binary64 b).toNat = 0 := by rw [hzero]; rfl
      rw [hnone] at heq
      split at heq
      · cases heq
      · injection heq with _ _ he
        omega
    · injection heq with _ _ he
      omega

theorem unpack_packedInfinity (sign : Sign) :
    unpack .binary64 (Float.Model.UnpackedFloat.packedInfinity .binary64 sign) =
      .infinity sign := by
  cases sign <;> rfl

theorem unpack_normal (sign : Sign) {exponent : BitVec 11} (mantissa : BitVec 52)
    (hall : exponent ≠ -1#11) (hsome : exponent ≠ 0#11) :
    unpack .binary64 (packComponents .binary64 sign exponent mantissa) =
      .finite sign (2 ^ 52 + mantissa.toNat) (exponent.toNat - 1075) (by omega) := by
  have hexponent : @unpackExponent .binary64
      (packComponents .binary64 sign exponent mantissa) = exponent :=
    Float.Model.UnpackedFloat.unpackExponent_packComponents
  have hmantissa : @unpackMantissa .binary64
      (packComponents .binary64 sign exponent mantissa) = mantissa :=
    Float.Model.UnpackedFloat.unpackMantissa_packComponents
  have hsign : Sign.ofBitVec (@unpackSign .binary64
      (packComponents .binary64 sign exponent mantissa)) = sign := by
    rw [Float.Model.UnpackedFloat.unpackSign_packComponents]
    cases sign <;> rfl
  have hm : (1#1 ++ mantissa).toNat = 2 ^ 52 + mantissa.toNat := by
    rw [BitVec.toNat_append, ← Nat.shiftLeft_add_eq_or_of_lt mantissa.isLt, Nat.shiftLeft_eq]
    rfl
  rw [unpack, hexponent, hsign, if_neg hall, if_neg hsome]
  congr 1
  rw [hmantissa, hm]

theorem unpack_subnormal (sign : Sign) {mantissa : BitVec 52} (hsome : mantissa ≠ 0#52) :
    unpack .binary64 (packComponents .binary64 sign 0#11 mantissa) =
      .finite sign mantissa.toNat (-1074)
        (Nat.pos_of_ne_zero fun h => hsome (BitVec.eq_of_toNat_eq h)) := by
  have hexponent : @unpackExponent .binary64
      (packComponents .binary64 sign 0#11 mantissa) = 0#11 :=
    Float.Model.UnpackedFloat.unpackExponent_packComponents
  have hmantissa : @unpackMantissa .binary64
      (packComponents .binary64 sign 0#11 mantissa) = mantissa :=
    Float.Model.UnpackedFloat.unpackMantissa_packComponents
  have hsign : Sign.ofBitVec (@unpackSign .binary64
      (packComponents .binary64 sign 0#11 mantissa)) = sign := by
    rw [Float.Model.UnpackedFloat.unpackSign_packComponents]
    cases sign <;> rfl
  rw [unpack, hexponent, hsign, if_neg (by decide), if_pos rfl,
    dif_neg fun h => hsome (hmantissa.symm.trans h)]
  congr 1
  rw [hmantissa]

theorem unpack_pack {sign : Sign} {m : Nat} {e : Int} {h : 0 < m}
    (htrim : Trim (.finite sign m e h)) :
    unpack .binary64 (pack .binary64 (.finite sign m e h)) =
      if e ≤ 971 then .finite sign m e h else .infinity sign := by
  obtain ⟨hdigits, hleast, hleading⟩ := htrim
  have hbias : (Format.binary64.exponentBias : Int) = 1023 := rfl
  have hfraction : (Format.binary64.mantissaBitsWithoutImplicit : Int) = 52 := rfl
  have hsize : 2 ^ Format.binary64.exponentBits = 2048 := rfl
  have hbits : Format.binary64.mantissaBits = 53 := rfl
  rw [pack]
  dsimp only
  rw [hbias, hfraction, hsize, hbits]
  by_cases hsmall : e ≤ 971
  · rw [if_pos hsmall, if_neg (by omega)]
    have hmantissa : (BitVec.ofNat 52 m).toNat = m % 2 ^ 52 := BitVec.toNat_ofNat ..
    by_cases hlog : m.log2 + 1 = 53
    · rw [if_pos hlog]
      have hfull : 2 ^ 52 ≤ m := by
        have hself := Nat.log2_self_le h.ne'
        rwa [Nat.succ.inj hlog] at hself
      have hexponent : (BitVec.ofNat 11 (e + 1023 + 52).toNat).toNat = (e + 1023 + 52).toNat := by
        rw [BitVec.toNat_ofNat]
        omega
      have hall : BitVec.ofNat 11 (e + 1023 + 52).toNat ≠ -1#11 := by
        intro heq
        have hones : (-1#11).toNat = 2047 := rfl
        rw [heq, hones] at hexponent
        omega
      have hsome : BitVec.ofNat 11 (e + 1023 + 52).toNat ≠ 0#11 := by
        intro heq
        have hzero : (0#11).toNat = 0 := rfl
        rw [heq, hzero] at hexponent
        omega
      refine (unpack_normal sign _ hall hsome).trans ?_
      simp only [hexponent, hmantissa, UnpackedFloat.finite.injEq, true_and]
      omega
    · rw [if_neg hlog]
      have hshort : m < 2 ^ 52 := by
        by_contra hlong
        have := (Nat.log2_eq_iff h.ne').mpr ⟨not_lt.mp hlong, hdigits⟩
        omega
      have hsome : BitVec.ofNat 52 m ≠ 0#52 := by
        intro heq
        have hzero : (0#52).toNat = 0 := rfl
        rw [heq, hzero] at hmantissa
        omega
      refine (unpack_subnormal sign hsome).trans ?_
      simp only [hmantissa, UnpackedFloat.finite.injEq, true_and]
      omega
  · rw [if_neg hsmall, if_pos (by omega)]
    exact unpack_packedInfinity sign

/-! ## Sums -/

theorem le_self {a : UnpackedFloat} (hnan : a ≠ .notANumber) : a.le a = true := by
  rw [UnpackedFloat.le, compare_rank hnan hnan, compare_eq_iff_eq.mpr rfl]
  rfl

theorem le_infinity {a : UnpackedFloat} (hnan : a ≠ .notANumber) :
    a.le (.infinity .positive) = true := by
  rcases a with (_ | _) | _ | (_ | _) | ⟨_ | _, m, e, hm⟩ <;>
    first | rfl | exact absurd rfl hnan

theorem negative_le {a : UnpackedFloat} (ha : NotBelow a) (m : Nat) (e : Int) (hm : 0 < m) :
    (UnpackedFloat.finite .negative m e hm).le a = true := by
  cases ha <;> rfl

theorem zero_le {a : UnpackedFloat} (ha : NotBelow a) (sign : Sign) :
    (UnpackedFloat.zero sign).le a = true := by
  cases ha <;> rfl

theorem units_decrease (m : Nat) {e t : Int} (ht : -1074 ≤ t) (hle : t ≤ e) :
    units (decreaseExponent m e t).1 t = units m e := by
  have hexponent : (decreaseExponent m e t).2 = t := by
    unfold decreaseExponent
    dsimp only
    omega
  rw [← units_decreaseExponent m e ht, hexponent]

/-- A finite number and one that is not below zero, added at the smaller exponent and rounded. -/
theorem le_normalize {sign : Sign} {m m' : Nat} {e e' : Int} {hm : 0 < m}
    (hfits : Fits (.finite sign m e hm)) (he' : -1074 ≤ e') :
    (UnpackedFloat.finite sign m e hm).le (unpack .binary64 (pack .binary64
      (UnpackedFloat.normalize .binary64
        (sign.apply (decreaseExponent m e (min e e')).1 + (decreaseExponent m' e' (min e e')).1)
        (min e e') .positive))) = true := by
  obtain ⟨htrim, hsmall⟩ := hfits
  obtain ⟨hdigits, hleast, -⟩ := id htrim
  have hunits := units_decrease m (le_min hleast he') (min_le_left e e')
  have hn : -1074 ≤ min e e' := le_min hleast he'
  generalize (decreaseExponent m e (min e e')).1 = m₁ at *
  generalize (decreaseExponent m' e' (min e e')).1 = m₂
  generalize min e e' = n at *
  cases sign with
  | positive =>
      have hpos : 0 < m₁ := by
        refine Nat.pos_of_ne_zero fun hzero => ?_
        rw [hzero, units, units, Nat.zero_mul] at hunits
        exact (Nat.mul_pos hm (Nat.two_pow_pos _)).ne hunits
      obtain ⟨r, t, hr, hround, htrim', hnearest⟩ :=
        round_spec .positive (Nat.add_pos_left hpos m₂) hn
      have hle : units m e ≤ units r t := by
        refine hnearest.below m e hdigits hleast ?_
        rw [← hunits]
        exact Nat.mul_le_mul_right _ (Nat.le_add_right m₁ m₂)
      have hnormalize : UnpackedFloat.normalize .binary64 (Sign.positive.apply m₁ + m₂) n
          .positive = .finite .positive r t hr := by
        have hgt : compare (Sign.positive.apply m₁ + (m₂ : Int)) 0 = .gt :=
          compare_gt_iff_gt.mpr (show (0 : Int) < m₁ + m₂ by omega)
        rw [UnpackedFloat.normalize, hgt]
        exact hround
      rw [hnormalize, unpack_pack htrim']
      split
      · exact isLE_of_lex (lex_of_units htrim htrim' hle)
      · rfl
  | negative =>
      unfold UnpackedFloat.normalize
      cases hcompare : compare (Sign.negative.apply m₁ + (m₂ : Int)) 0 with
      | eq =>
          dsimp only
          rw [pack, Float.Model.UnpackedFloat.unpack_packedZero]
          rfl
      | gt => exact negative_le (notBelow_pack (notBelow_round _ _ _)) m e hm
      | lt =>
          have hneg : -(m₁ : Int) + m₂ < 0 := compare_lt_iff_lt.mp hcompare
          have hnat : (-(Sign.negative.apply m₁ + (m₂ : Int))).toNat = m₁ - m₂ := by
            show (-(-(m₁ : Int) + m₂)).toNat = m₁ - m₂
            omega
          obtain ⟨r, t, hr, hround, htrim', hnearest⟩ :=
            round_spec .negative (by omega : 0 < m₁ - m₂) hn
          have hle : units r t ≤ units m e := by
            refine hnearest.above m e hdigits hleast ?_
            rw [← hunits]
            exact Nat.mul_le_mul_right _ (Nat.sub_le m₁ m₂)
          have hlex := lex_of_units htrim' htrim hle
          dsimp only
          rw [hnat, hround, unpack_pack htrim', if_pos (by have := hsmall _ _ _ _ rfl; omega)]
          show ((compare e t).then (compare m r)).swap.isLE = true
          have hswap : (compare e t).swap = compare t e := Std.OrientedCmp.eq_swap.symm
          have hswap' : (compare m r).swap = compare r m := Std.OrientedCmp.eq_swap.symm
          rw [Ordering.swap_then, hswap, hswap']
          exact isLE_of_lex hlex

/-- A sum is not below its first summand, if the other is not below zero. Infinity cannot be added
to minus infinity. -/
theorem le_pack_add {a b : UnpackedFloat} (ha : Fits a) (hb : Fits b) (hnan : a ≠ .notANumber)
    (hinfinite : a ≠ .infinity .negative) (hbelow : NotBelow b) :
    a.le (unpack .binary64 (pack .binary64 (UnpackedFloat.add .binary64 a b))) = true := by
  have htop : a.le (unpack .binary64 (pack .binary64 (.infinity .positive))) = true := by
    rw [pack, unpack_packedInfinity]
    exact le_infinity hnan
  cases hbelow with
  | infinity =>
      rcases a with (_ | _) | _ | _ | _
      · exact absurd rfl hinfinite
      · exact htop
      · exact absurd rfl hnan
      · exact htop
      · exact htop
  | zero sign' =>
      rcases a with (_ | _) | _ | sign | ⟨sign, m, e, hm⟩
      · exact absurd rfl hinfinite
      · exact htop
      · exact absurd rfl hnan
      · exact zero_le (notBelow_pack (notBelow_add (.zero sign) (.zero sign'))) sign
      · show UnpackedFloat.le _ (unpack .binary64 (pack .binary64 (.finite sign m e hm))) = true
        rw [unpack_pack ha.trim, if_pos (ha.small _ _ _ _ rfl)]
        exact le_self hnan
  | finite m' e' hm' =>
      rcases a with (_ | _) | _ | sign | ⟨sign, m, e, hm⟩
      · exact absurd rfl hinfinite
      · exact htop
      · exact absurd rfl hnan
      · exact zero_le (notBelow_pack (notBelow_add (.zero sign) (.finite m' e' hm'))) sign
      · exact le_normalize ha hb.trim.2.1

/-- What no number is below. -/
def minusInfinity : Float := -(1.0 / 0.0)

variable {x y : Float}

theorem above_iff : TimeScalar.lt minusInfinity x = true ↔
    x.toModel.unpack ≠ .notANumber ∧ x.toModel.unpack ≠ .infinity .negative := by
  have hunpack : minusInfinity.toModel.unpack = .infinity .negative := by rfl
  rw [lt_eq, hunpack]
  rcases x.toModel.unpack with (_ | _) | _ | (_ | _) | ⟨_ | _, m, e, hm⟩ <;>
    first
    | exact iff_of_true rfl ⟨nofun, nofun⟩
    | exact iff_of_false nofun fun h => h.1 rfl
    | exact iff_of_false nofun fun h => h.2 rfl

/-- Above minus infinity, sums do not go back. -/
theorem le_add (hx : TimeScalar.lt minusInfinity x = true) (hy : TimeScalar.le 0 y = true) :
    TimeScalar.le x (TimeScalar.add x y) = true := by
  obtain ⟨hnan, hinfinite⟩ := above_iff.mp hx
  rw [le_eq]
  exact le_pack_add (fits_unpack _) (fits_unpack _) hnan hinfinite (zero_le_iff.mp hy)

/-- Minus infinity is not left, unless for NaN, and NaN is not left at all. -/
theorem add_sunk (hx : TimeScalar.lt minusInfinity x = false) (hy : TimeScalar.le 0 y = true) :
    TimeScalar.lt minusInfinity (TimeScalar.add x y) = false := by
  have hsum : (TimeScalar.add x y).toModel.unpack = unpack .binary64 (pack .binary64
      (UnpackedFloat.add .binary64 x.toModel.unpack y.toModel.unpack)) := rfl
  rw [Bool.eq_false_iff, ne_eq, above_iff, not_and_or, not_not, not_not] at hx ⊢
  rw [hsum]
  have hbelow := zero_le_iff.mp hy
  generalize y.toModel.unpack = b at hbelow ⊢
  rcases hx with hx | hx
  · have hnan : UnpackedFloat.add .binary64 .notANumber b = .notANumber := rfl
    rw [hx, hnan]
    exact .inl rfl
  · rw [hx]
    cases hbelow with
    | infinity => exact .inl rfl
    | zero sign => exact .inr (unpack_packedInfinity .negative)
    | finite m e h => exact .inr (unpack_packedInfinity .negative)

end Cuesheet.Number
