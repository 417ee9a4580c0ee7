import Cuesheet.Number.Notation
import Cuesheet.Text.Digit
import Mathlib.Tactic.IntervalCases

/-!
# Numbers are told apart by their digits

The decimal notation of a natural number can be read back (`ofDigits_natChars`), so two numbers
have different notations (`natChars_inj`).
-/

namespace Cuesheet.Number

theorem ofDigits_cons (d : Nat) (digits : List Nat) :
    Text.ofDigits (d :: digits) = d * Nat.pow 10 digits.length + Text.ofDigits digits := by
  have hfold := Text.foldl_digits digits (10 * 0 + d)
  rw [Text.ofDigits, List.foldl_cons, hfold, Nat.mul_zero, Nat.zero_add]

theorem ofDigits_go (n : Nat) (written : List Nat) :
    Text.ofDigits (Decimal.digitsOf.go n written).2 =
      n * Nat.pow 10 written.length + Text.ofDigits written := by
  fun_induction Decimal.digitsOf.go n written with
  | case1 written => rw [Nat.zero_mul, Nat.zero_add]
  | case2 n written hpos ih =>
      have hpow : Nat.pow 10 (written.length + 1) = Nat.pow 10 written.length * 10 := rfl
      have hdiv : n / 10 * 10 + n % 10 = n := by omega
      rw [ih, ofDigits_cons, List.length_cons, hpow]
      calc n / 10 * (Nat.pow 10 written.length * 10) +
            (n % 10 * Nat.pow 10 written.length + Text.ofDigits written)
          = (n / 10 * 10 + n % 10) * Nat.pow 10 written.length + Text.ofDigits written := by
            grind
        _ = n * Nat.pow 10 written.length + Text.ofDigits written := by rw [hdiv]

theorem ofDigits_digitsOf (n : Nat) : Text.ofDigits (Decimal.digitsOf n) = n := by
  rw [Decimal.digitsOf, ofDigits_go]
  simp [Text.ofDigits]

theorem le_nine_of_mem_go {n : Nat} {written : List Nat} (hwritten : ∀ d ∈ written, d ≤ 9) :
    ∀ d ∈ (Decimal.digitsOf.go n written).2, d ≤ 9 := by
  fun_induction Decimal.digitsOf.go n written with
  | case1 written => exact hwritten
  | case2 n written _ ih => exact ih (List.forall_mem_cons.mpr ⟨by omega, hwritten⟩)

theorem le_nine_of_mem_digitsOf {n d : Nat} (h : d ∈ Decimal.digitsOf n) : d ≤ 9 := by
  have hnone : ∀ d ∈ ([] : List Nat), d ≤ 9 := nofun
  exact le_nine_of_mem_go hnone d h

theorem toNat_digitChar {d : Nat} (h : d ≤ 9) : (Char.ofNat (48 + d)).toNat - 48 = d := by
  interval_cases d <;> decide

theorem ofDigits_natChars (n : Nat) :
    Text.ofDigits ((natChars n).map fun c => c.toNat - 48) = n := by
  unfold natChars
  split
  · rename_i hnone
    have hzero := ofDigits_digitsOf n
    rw [hnone] at hzero
    rw [← hzero]
    rfl
  · rw [digitChars, List.map_map]
    have hdigits : (Decimal.digitsOf n).map ((fun c : Char => c.toNat - 48) ∘
        fun d => Char.ofNat (48 + d)) = Decimal.digitsOf n := by
      refine (List.map_congr_left fun d hd => ?_).trans (List.map_id _)
      exact toNat_digitChar (le_nine_of_mem_digitsOf hd)
    rw [hdigits, ofDigits_digitsOf]

theorem natChars_inj {m n : Nat} (h : natChars m = natChars n) : m = n := by
  rw [← ofDigits_natChars m, h, ofDigits_natChars n]

theorem natChars_ne_nil (n : Nat) : natChars n ≠ [] := by
  unfold natChars
  split
  · simp
  · rename_i hsome
    simpa [digitChars] using hsome

theorem exists_digit_of_mem_natChars {n : Nat} {c : Char} (h : c ∈ natChars n) :
    ∃ d ≤ 9, c = Char.ofNat (48 + d) := by
  unfold natChars at h
  split at h
  · exact ⟨0, Nat.zero_le 9, List.mem_singleton.mp h⟩
  · obtain ⟨d, hd, rfl⟩ := List.mem_map.mp h
    exact ⟨d, le_nine_of_mem_digitsOf hd, rfl⟩

theorem toList_intText (n : Nat) : (intText n).toList = natChars n := by
  have hnonneg : ¬ (n : Int) < 0 := by omega
  rw [intText, if_neg hnonneg, String.toList_ofList, Int.natAbs_natCast]

end Cuesheet.Number
