import Cuesheet.Proofs.Number.Doubles

/-!
# Doubles that are not below zero

Zeros of either sign, what is above them, and infinity (`NotBelow`); NaN is not among them. Sums and
products of them are not below zero, nor is a finite double less one that is not above it, however
the results are rounded. Their floors are not below zero either (`frameAt_nonneg`), nor are the
remainders of finite ones (`mod_nonneg_iff`).
-/

namespace Cuesheet.Number

open Float.Model (Format UnpackedFloat)
open Float.Model.UnpackedFloat (Sign unpack unpackExponent unpackMantissa unpackSign pack
  packComponents roundWithAccuracy decreaseExponent)

/-- Zero, above zero or infinity. -/
inductive NotBelow : UnpackedFloat → Prop
  | infinity : NotBelow (.infinity .positive)
  | zero (sign : Sign) : NotBelow (.zero sign)
  | finite (m : Nat) (e : Int) (h : 0 < m) : NotBelow (.finite .positive m e h)

variable {x y : Float} {a b : UnpackedFloat}

/-- Doubles that are at least zero. -/
theorem zero_le_iff : TimeScalar.le (0 : Float) x = true ↔ NotBelow x.toModel.unpack := by
  have hzero : (0 : Float).toModel.unpack = .zero .positive := rfl
  rw [le_eq, hzero]
  generalize x.toModel.unpack = a
  rcases a with (_ | _) | _ | (_ | _) | ⟨_ | _, m, e, hm⟩
  · exact iff_of_false nofun nofun
  · exact iff_of_true rfl .infinity
  · exact iff_of_false nofun nofun
  · exact iff_of_true rfl (.zero _)
  · exact iff_of_true rfl (.zero _)
  · exact iff_of_false nofun nofun
  · exact iff_of_true rfl (.finite m e hm)

/-! ## Rounding keeps signs -/

theorem notBelow_round (m : Nat) (e : Int) (accuracy : UnpackedFloat.Accuracy) :
    NotBelow (roundWithAccuracy .binary64 .positive m e accuracy) := by
  unfold roundWithAccuracy
  dsimp only
  split
  · exact .zero _
  · exact .finite ..

theorem notBelow_normalize {n : Int} (h : 0 ≤ n) (e : Int) :
    NotBelow (UnpackedFloat.normalize .binary64 n e .positive) := by
  unfold UnpackedFloat.normalize
  cases hcompare : compare n 0 with
  | lt => exact absurd (compare_lt_iff_lt.mp hcompare) (not_lt.mpr h)
  | eq => exact .zero _
  | gt => exact notBelow_round _ _ _

/-- What has a positive sign and is not at the greatest exponent is not below zero. -/
theorem notBelow_components (exponent : BitVec 11) (mantissa : BitVec 52)
    (h : exponent ≠ -1#11) :
    NotBelow (unpack .binary64 (packComponents .binary64 .positive exponent mantissa)) := by
  have hexponent : @unpackExponent .binary64
      (packComponents .binary64 .positive exponent mantissa) = exponent :=
    Float.Model.UnpackedFloat.unpackExponent_packComponents
  have hsign : Sign.ofBitVec (@unpackSign .binary64
      (packComponents .binary64 .positive exponent mantissa)) = .positive := by
    rw [Float.Model.UnpackedFloat.unpackSign_packComponents]
    rfl
  rw [unpack, hexponent, hsign, if_neg h]
  split
  · split
    · exact .zero _
    · exact .finite ..
  · exact .finite ..

theorem notBelow_pack (h : NotBelow a) : NotBelow (unpack .binary64 (pack .binary64 a)) := by
  cases h with
  | infinity => exact .infinity
  | zero sign =>
      rw [pack, Float.Model.UnpackedFloat.unpack_packedZero]
      exact .zero sign
  | finite m e hm =>
      unfold pack
      dsimp only
      split
      · exact .infinity
      · rename_i hsmall
        split
        · refine notBelow_components _ _ fun heq => ?_
          have hall := congrArg BitVec.toNat heq
          have hones : (-1#11).toNat = 2047 := rfl
          rw [hones, BitVec.toNat_ofNat] at hall
          omega
        · exact notBelow_components _ _ (by decide)

/-! ## Sums and differences -/

theorem notBelow_add (ha : NotBelow a) (hb : NotBelow b) :
    NotBelow (UnpackedFloat.add .binary64 a b) := by
  cases ha with
  | infinity => cases hb <;> exact .infinity
  | zero sign =>
      cases hb with
      | infinity => exact .infinity
      | zero sign' =>
          unfold UnpackedFloat.add
          dsimp only
          split <;> exact .zero _
      | finite m e h => exact .finite m e h
  | finite m e h =>
      cases hb with
      | infinity => exact .infinity
      | zero sign => exact .finite m e h
      | finite m' e' h' =>
          exact notBelow_normalize
            (Int.add_nonneg (Int.natCast_nonneg _) (Int.natCast_nonneg _)) _

theorem add_nonneg (hx : TimeScalar.le 0 x = true) (hy : TimeScalar.le 0 y = true) :
    TimeScalar.le 0 (TimeScalar.add x y) = true := by
  rw [zero_le_iff] at hx hy ⊢
  exact notBelow_pack (notBelow_add hx hy)

/-- A finite number as doubles hold it: all of its leading digits are there, unless its exponent is
the least one. -/
def Trim : UnpackedFloat → Prop
  | .finite _ m e _ => m < 2 ^ 53 ∧ -1074 ≤ e ∧ (-1074 < e → 2 ^ 52 ≤ m)
  | _ => True

theorem trim_unpack (b : BitVec 64) : Trim (unpack .binary64 b) := by
  have hmantissa : (@unpackMantissa .binary64 b).toNat < 2 ^ 52 :=
    (@unpackMantissa .binary64 b).isLt
  have hbias : (Format.binary64.exponentBias : Int) = 1023 := rfl
  have hfraction : (Format.binary64.mantissaBitsWithoutImplicit : Int) = 52 := rfl
  unfold unpack
  dsimp only
  split
  · split <;> trivial
  · split
    · rename_i hzero
      split
      · trivial
      · have hexponent : (@unpackExponent .binary64 b).toNat = 0 := by rw [hzero]; rfl
        rw [Trim, hexponent, hbias, hfraction]
        omega
    · rename_i hpositive
      have hexponent : (@unpackExponent .binary64 b).toNat ≠ 0 := fun h =>
        hpositive (BitVec.eq_of_toNat_eq h)
      have hleading : (1#1 ++ @unpackMantissa .binary64 b).toNat =
          2 ^ 52 + (@unpackMantissa .binary64 b).toNat := by
        rw [BitVec.toNat_append, ← Nat.shiftLeft_add_eq_or_of_lt hmantissa, Nat.shiftLeft_eq]
        rfl
      rw [Trim, hleading, hbias, hfraction]
      omega

/-- Of two numbers of one sign, the one that comes first is not above the other, also if both are
written with one exponent. -/
theorem decrease_le {sign sign' : Sign} {m m' : Nat} {e e' : Int} {hm : 0 < m} {hm' : 0 < m'}
    (htrim : Trim (.finite sign m e hm)) (htrim' : Trim (.finite sign' m' e' hm'))
    (h : e < e' ∨ e = e' ∧ m ≤ m') :
    (decreaseExponent m e (min e e')).1 ≤ (decreaseExponent m' e' (min e e')).1 := by
  obtain ⟨hlarge, hleast, -⟩ := htrim
  unfold decreaseExponent
  dsimp only
  rw [Nat.shiftLeft_eq, Nat.shiftLeft_eq]
  rcases h with h | ⟨rfl, h⟩
  · have hzero : (e - min e e').toNat = 0 := by omega
    obtain ⟨k, hk⟩ : ∃ k, (e' - min e e').toNat = k + 1 := ⟨(e' - min e e').toNat - 1, by omega⟩
    have hpos : 1 ≤ 2 ^ k := Nat.one_le_two_pow
    rw [hzero, hk, Nat.pow_succ]
    have hdigits := htrim'.2.2 (by omega)
    calc m * 2 ^ 0 ≤ m' * (1 * 2) := by omega
      _ ≤ m' * (2 ^ k * 2) := Nat.mul_le_mul_left _ (Nat.mul_le_mul_right _ hpos)
  · exact Nat.mul_le_mul_right _ h

theorem lex_of_isLE {e e' : Int} {m m' : Nat}
    (h : ((compare e e').then (compare m m')).isLE = true) : e < e' ∨ e = e' ∧ m ≤ m' := by
  cases he : compare e e' with
  | lt => exact .inl (compare_lt_iff_lt.mp he)
  | gt =>
      rw [he] at h
      cases h
  | eq =>
      rw [he] at h
      refine .inr ⟨compare_eq_iff_eq.mp he, ?_⟩
      rw [← not_lt, ← compare_gt_iff_gt, ← Ordering.isLE_iff_ne_gt]
      exact h

/-- A number less one that is not above it. -/
theorem notBelow_sub (ha : Trim a) (hb : Trim b) (hfinite : a.isFinite = true ∧ b.isFinite = true)
    (hle : b.le a = true) : NotBelow (UnpackedFloat.sub .binary64 a b) := by
  obtain ⟨hfa, hfb⟩ := hfinite
  rcases a with _ | _ | sa | ⟨sa, m, e, hm⟩
  · cases hfa
  · cases hfa
  · rcases b with _ | _ | sb | ⟨sb, m', e', hm'⟩
    · cases hfb
    · cases hfb
    · unfold UnpackedFloat.sub
      dsimp only
      split <;> exact .zero _
    · cases sb with
      | positive => cases hle
      | negative => exact .finite m' e' hm'
  · rcases b with _ | _ | sb | ⟨sb, m', e', hm'⟩
    · cases hfb
    · cases hfb
    · cases sa with
      | positive => exact .finite m e hm
      | negative => cases hle
    · refine notBelow_normalize ?_ _
      cases sa <;> cases sb
      · have horder : ((compare e' e).then (compare m' m)).swap.isLE = true := hle
        have hswap : (compare e' e).swap = compare e e' := Std.OrientedCmp.eq_swap.symm
        have hswap' : (compare m' m).swap = compare m m' := Std.OrientedCmp.eq_swap.symm
        rw [Ordering.swap_then, hswap, hswap'] at horder
        have hsmaller := decrease_le ha hb (lex_of_isLE horder)
        show 0 ≤ -((decreaseExponent m e (min e e')).1 : Int) -
          -((decreaseExponent m' e' (min e e')).1 : Int)
        omega
      · cases hle
      · show 0 ≤ ((decreaseExponent m e (min e e')).1 : Int) -
          -((decreaseExponent m' e' (min e e')).1 : Int)
        omega
      · have hsmaller := decrease_le hb ha (lex_of_isLE hle)
        rw [min_comm] at hsmaller
        show 0 ≤ ((decreaseExponent m e (min e e')).1 : Int) -
          ((decreaseExponent m' e' (min e e')).1 : Int)
        omega

theorem isNaN_of_isFinite (hx : x.isFinite = true) : x.isNaN = false := by
  have hfinite : x.toModel.unpack.isFinite = true := hx
  show x.toModel.unpack.isNaN = false
  revert hfinite
  cases x.toModel.unpack <;> first | exact fun _ => rfl | exact nofun

/-- Finite doubles apart: how far the later is from the earlier. -/
theorem sub_nonneg (hx : x.isFinite = true) (hy : y.isFinite = true)
    (hle : TimeScalar.le x y = true) : TimeScalar.le 0 (TimeScalar.sub y x) = true := by
  rw [zero_le_iff]
  rw [le_eq] at hle
  exact notBelow_pack (notBelow_sub (trim_unpack _) (trim_unpack _) ⟨hy, hx⟩ hle)

/-! ## Products and floors -/

/-- The product of two numbers that are not below zero is not either, if it is a number. -/
theorem notBelow_mul (ha : NotBelow a) (hb : NotBelow b)
    (hnan : UnpackedFloat.mul .binary64 a b ≠ .notANumber) :
    NotBelow (UnpackedFloat.mul .binary64 a b) := by
  cases ha with
  | infinity =>
      cases hb with
      | infinity => exact .infinity
      | zero sign => exact absurd rfl hnan
      | finite m e h => exact .infinity
  | zero sign =>
      cases hb with
      | infinity => exact absurd rfl hnan
      | zero sign' => exact .zero _
      | finite m e h => exact .zero _
  | finite m e h =>
      cases hb with
      | infinity => exact .infinity
      | zero sign => exact .zero _
      | finite m' e' h' => exact notBelow_round _ _ _

/-- What is not below zero has no sign, except for zero. -/
theorem notBelow_iff_bits (b : BitVec 64) : NotBelow (unpack .binary64 b) ↔
    unpack .binary64 b ≠ .notANumber ∧ b.toNat ≤ 2 ^ 63 := by
  have hfraction := fraction_eq b
  have hexponent := exponent_eq b
  have hlt := b.isLt
  have hsize : twoTo Binary.fractionBits = 2 ^ 52 := rfl
  have hrange : twoTo 11 = 2 ^ 11 := rfl
  rw [hsize] at hfraction hexponent
  rw [hrange] at hexponent
  have hsign : Sign.ofBitVec (@unpackSign .binary64 b) =
      if b.toNat < 2 ^ 63 then .positive else .negative := by
    have hbit : (@unpackSign .binary64 b).toNat = b.toNat / 2 ^ 63 % 2 := by
      rw [Float.Model.UnpackedFloat.unpackSign_def, BitVec.extractLsb'_toNat,
        Nat.shiftRight_eq_div_pow]
      rfl
    have hzero : @unpackSign .binary64 b = 0#1 ↔ b.toNat < 2 ^ 63 := by
      rw [← BitVec.toNat_inj, hbit]
      show b.toNat / 2 ^ 63 % 2 = 0 ↔ _
      omega
    exact if_congr hzero rfl rfl
  have hall : @unpackExponent .binary64 b = -1 ↔ b.toNat / 2 ^ 52 % 2 ^ 11 = 2047 := by
    rw [← BitVec.toNat_inj, hexponent]
    rfl
  have hleast : @unpackExponent .binary64 b = 0 ↔ b.toNat / 2 ^ 52 % 2 ^ 11 = 0 := by
    rw [← BitVec.toNat_inj, hexponent]
    rfl
  have hnone : @unpackMantissa .binary64 b = 0 ↔ b.toNat % 2 ^ 52 = 0 := by
    rw [← BitVec.toNat_inj, hfraction]
    rfl
  -- above zero is what has no sign, and the bits of a negative zero are those of its sign
  have hfinite (m : Nat) (e : Int) (h : 0 < m) (hsome : b.toNat ≠ 2 ^ 63) :
      NotBelow (.finite (if b.toNat < 2 ^ 63 then .positive else .negative) m e h) ↔
        UnpackedFloat.finite (if b.toNat < 2 ^ 63 then .positive else .negative) m e h ≠
          .notANumber ∧ b.toNat ≤ 2 ^ 63 := by
    split
    · exact iff_of_true (.finite m e h) ⟨nofun, by omega⟩
    · exact iff_of_false nofun fun hb => by omega
  rw [unpack]
  simp only [hsign]
  split
  · rename_i h
    have h := hall.mp h
    split
    · split
      · exact iff_of_true .infinity ⟨nofun, by omega⟩
      · exact iff_of_false nofun fun hb => by omega
    · exact iff_of_false nofun fun hb => hb.1 rfl
  · split
    · rename_i h
      have h := hleast.mp h
      split
      · rename_i hm
        have hm := hnone.mp hm
        exact iff_of_true (.zero _) ⟨nofun, by omega⟩
      · rename_i hm
        have hm := mt hnone.mpr hm
        exact hfinite _ _ _ (by omega)
    · rename_i h
      have h := mt hleast.mpr h
      exact hfinite _ _ _ (by omega)

theorem ofFloat_of_nonneg (h : TimeScalar.le 0 x = true) {negative : Bool} {m : Nat} {q : Int}
    (hx : Binary.ofFloat x = .finite negative m q) : negative = false ∨ m = 0 := by
  rw [zero_le_iff] at h
  have hbits : x.toBits.toNat ≤ 2 ^ 63 := ((notBelow_iff_bits x.toBits.toBitVec).mp h).2
  rw [Binary.ofFloat, Binary.ofBits] at hx
  rcases hbits.lt_or_eq with hlt | heq
  · have hsign : decide (twoTo 63 ≤ x.toBits.toNat) = false := decide_eq_false (not_le.mpr hlt)
    rw [hsign] at hx
    split at hx
    · split at hx <;> cases hx
    · split at hx <;> · cases hx; exact .inl rfl
  · rw [heq] at hx
    cases hx
    exact .inr rfl

/-- Zeros have no leading digits. -/
theorem ofFloat_ne_zero (h : TimeScalar.lt 0 x = true) {negative : Bool} {m : Nat} {q : Int}
    (hx : Binary.ofFloat x = .finite negative m q) : m ≠ 0 := by
  rintro rfl
  have hzero (bits : BitVec 64) (hbits : x.toBits.toBitVec = bits)
      (hsame : (0 : Float).toModel.unpack.lt (unpack .binary64 bits) = false) : False := by
    have hunpack : x.toModel.unpack = unpack .binary64 x.toBits.toBitVec := rfl
    rw [lt_eq, hunpack, hbits, hsame] at h
    cases h
  have hlt := x.toBits.toBitVec.isLt
  have hnat : x.toBits.toNat = x.toBits.toBitVec.toNat := rfl
  have hbits : x.toBits.toBitVec.toNat = 0 ∨ x.toBits.toBitVec.toNat = 2 ^ 63 := by
    have hsize : twoTo Binary.fractionBits = 2 ^ 52 := rfl
    have hrange : twoTo 11 = 2 ^ 11 := rfl
    rw [Binary.ofFloat, Binary.ofBits, hnat, hsize, hrange] at hx
    split at hx
    · split at hx <;> cases hx
    · split at hx
      · injection hx
        omega
      · injection hx
        omega
  rcases hbits with hbits | hbits
  · exact hzero 0#64 (BitVec.eq_of_toNat_eq hbits) rfl
  · exact hzero (BitVec.ofNat 64 (2 ^ 63)) (BitVec.eq_of_toNat_eq (by rw [hbits]; rfl)) rfl

theorem nearest_nonneg (num den : Nat) :
    TimeScalar.le 0 (Binary.nearest false num den) = true := by
  have hbits : (Binary.nearest false num den).toBits.toNat = Binary.nearestBits num den := by
    rw [toBits_nearest, if_neg Bool.false_ne_true, Nat.zero_add]
  have hle := nearestBits_le num den
  have hlimit : 2047 * twoTo Binary.fractionBits ≤ 2 ^ 63 := by decide
  rw [zero_le_iff]
  refine (notBelow_iff_bits (Binary.nearest false num den).toBits.toBitVec).mpr
    ⟨unpack_ne_nan (isNaN_nearest false num den), ?_⟩
  exact (hbits.trans_le hle).trans hlimit

/-- A floor of what is not below zero is not below zero. -/
theorem floor_nonneg (h : TimeScalar.le 0 x = true) {n : Int} (hn : floorFloat x = .ok n) :
    0 ≤ n := by
  unfold floorFloat at hn
  cases hx : Binary.ofFloat x with
  | nan => rw [hx] at hn; cases hn
  | infinite negative => rw [hx] at hn; cases hn
  | finite negative m q =>
      rw [hx] at hn
      have hsigned : (if negative then -(m : Int) else m) = m := by
        rcases ofFloat_of_nonneg h hx with rfl | rfl
        · rfl
        · cases negative <;> rfl
      injection hn with hn
      rw [← hn, hsigned]
      split
      · exact Int.mul_nonneg (Int.natCast_nonneg _) (Int.natCast_nonneg _)
      · exact Int.ediv_nonneg (Int.natCast_nonneg _) (Int.natCast_nonneg _)

theorem mul_nan (a : UnpackedFloat) : UnpackedFloat.mul .binary64 a .notANumber = .notANumber := by
  rcases a with _ | _ | _ | _ <;> rfl

/-- The double of a number that is not zero or below is a number above zero, or NaN. -/
theorem toFloat?_nonneg {number : Number} (h : number.isNonpositive = false)
    (hx : number.toFloat? = .ok x) (hnan : x.isNaN = false) : TimeScalar.le 0 x = true := by
  cases number with
  | real y =>
      cases hx
      have hpos := isPositive_of_isNonpositive h fun z hz => by cases hz; exact hnan
      exact le_of_lt hpos
  | int n =>
      have hn : ¬ n ≤ 0 := of_decide_eq_false h
      have hnegative : decide (n < 0) = false := decide_eq_false (by omega)
      rw [Number.toFloat?] at hx
      split at hx
      · cases hx
        rw [floatOfInt, hnegative]
        exact nearest_nonneg _ _
      · cases hx

/-- At a time that is not below zero, the frame is not either. -/
theorem frameAt_nonneg {fps : Number} (hfps : fps.isNonpositive = false)
    (hx : TimeScalar.le 0 x = true) {n : Int} (hn : TimeScalar.frameAt x fps = .ok n) : 0 ≤ n := by
  obtain ⟨rate, hrate, hfinite⟩ := (frameAt_ok_iff x fps).mp ⟨n, hn⟩
  have hfloor : (fps.toFloat? >>= fun rate => floorFloat (x * rate)) = .ok n := hn
  rw [hrate] at hfloor
  refine floor_nonneg ?_ hfloor
  have hproduct : (x * rate).toModel.unpack = unpack .binary64
      (pack .binary64 (UnpackedFloat.mul .binary64 x.toModel.unpack rate.toModel.unpack)) := rfl
  have hnan : UnpackedFloat.mul .binary64 x.toModel.unpack rate.toModel.unpack ≠ .notANumber := by
    intro hmul
    have hinfinite : (x * rate).toModel.unpack.isFinite = true := hfinite
    rw [hproduct, hmul] at hinfinite
    cases hinfinite
  have hrate' : rate.isNaN = false := by
    show rate.toModel.unpack.isNaN = false
    cases hr : rate.toModel.unpack with
    | notANumber => rw [hr, mul_nan] at hnan; exact absurd rfl hnan
    | _ => rfl
  have hpos := toFloat?_nonneg hfps hrate hrate'
  rw [zero_le_iff] at hx hpos ⊢
  rw [hproduct]
  exact notBelow_pack (notBelow_mul hx hpos hnan)

/-! ## The frame at zero -/

theorem zero_mul (h : TimeScalar.lt 0 x = true) (hx : x.isFinite = true) :
    (0 : Float) * x = 0 := by
  have hzero : (0 : Float).toModel.unpack = .zero .positive := rfl
  have hfinite : x.toModel.unpack.isFinite = true := hx
  have hmul : (0 : Float) * x = ⟨Float.Model.pack
      (UnpackedFloat.mul .binary64 (0 : Float).toModel.unpack x.toModel.unpack)⟩ := rfl
  rw [lt_eq, hzero] at h
  rw [hmul, hzero]
  revert h hfinite
  rcases x.toModel.unpack with (_ | _) | _ | (_ | _) | ⟨_ | _, m, e, hm⟩ <;> intro h hfinite
  · cases hfinite
  · cases hfinite
  · cases hfinite
  · cases h
  · cases h
  · cases h
  · rfl

/-- The double of a finite number above zero, if it has one, is so too. -/
theorem toFloat?_finite {number : Number} (hpos : number.isPositive = true)
    (hfinite : ∀ y, number = .real y → y.isFinite = true) (hx : number.toFloat? = .ok x) :
    TimeScalar.lt 0 x = true ∧ x.isFinite = true := by
  cases number with
  | real y =>
      obtain rfl : y = x := Except.ok.inj hx
      exact ⟨hpos, hfinite y rfl⟩
  | int n =>
      have hn : 0 < n := of_decide_eq_true hpos
      have hzero := toFloat?_ne_zero hpos hx
      rw [Number.toFloat?] at hx
      split at hx
      · rename_i hsmall
        have hnegative : decide (n < 0) = false := decide_eq_false (by omega)
        have hnearest : Binary.nearest false n.natAbs 1 = x := by
          cases hx
          rw [floatOfInt, hnegative]
        have hnonneg : TimeScalar.le 0 x = true := hnearest ▸ nearest_nonneg _ _
        obtain ⟨hnan₀, hnan⟩ := isNaN_of_le hnonneg
        constructor
        · rw [zero_eq, ← Bool.not_eq_true, beq_iff_place hnan hnan₀] at hzero
          rw [le_iff_place hnan₀ hnan] at hnonneg
          exact (lt_iff_place hnan₀ hnan).mpr (lt_of_le_of_ne hnonneg (Ne.symm hzero))
        · have hbits : x.toBits.toNat = Binary.nearestBits n.natAbs 1 := by
            rw [← hnearest, toBits_nearest, if_neg Bool.false_ne_true, Nat.zero_add]
          have hexponent : x.toBits.toNat / twoTo Binary.fractionBits < 2047 := by
            rw [hbits]
            exact Nat.div_lt_of_lt_mul ((Nat.mul_comm ..).trans_gt hsmall)
          refine (isFinite_unpack x.toBits.toBitVec).mpr fun heq => ?_
          rw [UInt64.toNat_toBitVec] at heq
          have hmod := Nat.mod_le (x.toBits.toNat / twoTo Binary.fractionBits) (twoTo 11)
          omega
      · cases hx

/-- Frames are counted from zero, at every rate that is a double. -/
theorem frameAt_zero {fps : Number} (hpos : fps.isPositive = true)
    (hfinite : ∀ x, fps = .real x → x.isFinite = true) {rate : Float}
    (hrate : fps.toFloat? = .ok rate) : TimeScalar.frameAt (0 : Float) fps = .ok 0 := by
  obtain ⟨hlt, hrate'⟩ := toFloat?_finite hpos hfinite hrate
  have hfloor : floorFloat (0 : Float) = .ok 0 := by decide +kernel
  show (fps.toFloat? >>= fun rate => floorFloat (0 * rate)) = .ok 0
  rw [hrate, ← hfloor]
  exact congrArg floorFloat (zero_mul hlt hrate')

/-! ## Infinity and remainders -/

theorem NotBelow.eq_infinity (h : NotBelow a) (ha : a.isFinite = false) :
    a = .infinity .positive := by
  cases h with
  | infinity => rfl
  | zero sign => cases ha
  | finite m e h => cases ha

theorem unpack_of_infinite (h : TimeScalar.le 0 x = true) (hx : x.isFinite = false) :
    x.toModel.unpack = .infinity .positive :=
  (zero_le_iff.mp h).eq_infinity hx

/-- Nothing is above infinity. -/
theorem le_infinite (h : TimeScalar.le 0 x = true) (hx : x.isFinite = false)
    (hy : y.isNaN = false) : TimeScalar.le y x = true := by
  have hnan := unpack_ne_nan hy
  rw [le_eq, unpack_of_infinite h hx]
  revert hnan
  rcases y.toModel.unpack with (_ | _) | _ | (_ | _) | ⟨_ | _, m, e, hm⟩ <;>
    first | exact fun _ => rfl | exact fun hnan => absurd rfl hnan

theorem isFinite_of_le (h : TimeScalar.le 0 y = true) (hle : TimeScalar.le y x = true)
    (hx : x.isFinite = true) : y.isFinite = true := by
  by_contra hy
  have hfinite : x.toModel.unpack.isFinite = true := hx
  rw [le_eq, unpack_of_infinite h (Bool.eq_false_iff.mpr hy)] at hle
  revert hfinite hle
  rcases x.toModel.unpack with (_ | _) | _ | (_ | _) | ⟨_ | _, m, e, hm⟩ <;>
    exact nofun

/-- The remainder by something above zero is not below zero, unless it is that of infinity, which
has none. -/
theorem mod_nonneg_iff (hy : TimeScalar.lt 0 y = true) (hle : TimeScalar.le y x = true) :
    TimeScalar.le 0 (TimeScalar.mod x y) = true ↔ x.isFinite = true := by
  have hx : TimeScalar.le 0 x = true := le_of_lt (lt_of_lt_of_le hy hle)
  show TimeScalar.le 0 (modFloat x y) = true ↔ _
  have hnan : TimeScalar.le (0 : Float) (0.0 / 0.0) = false := by decide +kernel
  constructor
  · intro hmod
    by_contra hinfinite
    unfold modFloat at hmod
    split at hmod
    · rename_i negx mx qx _ _ _ hofx _
      exact hinfinite ((isFinite_iff_ofFloat x).mpr ⟨negx, mx, qx, hofx⟩)
    · rename_i negx mx qx _ hofx _
      exact hinfinite ((isFinite_iff_ofFloat x).mpr ⟨negx, mx, qx, hofx⟩)
    · rw [hnan] at hmod
      cases hmod
  · intro hfinite
    have hfinite' : y.isFinite = true := isFinite_of_le (le_of_lt hy) hle hfinite
    obtain ⟨negx, mx, qx, hofx⟩ := (isFinite_iff_ofFloat x).mp hfinite
    obtain ⟨negy, my, qy, hofy⟩ := (isFinite_iff_ofFloat y).mp hfinite'
    have hmy := ofFloat_ne_zero hy hofy
    obtain rfl : negy = false := (ofFloat_of_nonneg (le_of_lt hy) hofy).resolve_right hmy
    unfold modFloat
    rw [hofx, hofy]
    dsimp only
    rw [if_neg hmy]
    split
    · exact nearest_nonneg 0 1
    · rename_i hrest
      have hmx : mx ≠ 0 := by
        rintro rfl
        exact hrest (by rw [Nat.zero_mul, Nat.zero_mod])
      obtain rfl : negx = false := (ofFloat_of_nonneg hx hofx).resolve_right hmx
      rw [if_pos rfl]
      split
      · exact nearest_nonneg _ 1
      · exact nearest_nonneg _ _

end Cuesheet.Number
