import Cuesheet.Proofs.Number.Sums
import Cuesheet.Proofs.Time.Latest

/-!
# Times that do not go back

A duration that is not below zero leads to a time that is not before (`Rising`). Doubles above minus
infinity rise as numbers do (`rising_above`). Among the others there is nothing to tell apart but
whether they are numbers (`rising_sunk`).
-/

namespace Cuesheet.TimeScalar

variable {T : Type} [TimeScalar T]

/-- Durations lead from times with a property to others that are not before. -/
structure Rising (p : T → Prop) (r : T → T → Prop) : Prop where
  unit : le (zero : T) one = true
  step : ∀ {a d : T}, p a → le zero d = true → p (add a d) ∧ r a (add a d)
  refl : ∀ {a : T}, p a → r a a
  trans : ∀ {a b c : T}, p a → p b → p c → r a b → r b c → r a c
  later : ∀ {a b : T}, p a → p b → r a (later a b) ∧ r b (later a b)

/-- No end is after the later one. -/
theorem Rising.laterEnd {p : T → Prop} {r : T → T → Prop} (h : Rising p r) {x y : Option T}
    (hx : Holds p x) (hy : Holds p y) {t : T} (ht : x = some t ∨ y = some t) :
    ∃ e, TimeScalar.laterEnd x y = some e ∧ r t e := by
  cases x with
  | none =>
      have ht := ht.resolve_left nofun
      exact ⟨t, ht, h.refl (hy t ht)⟩
  | some a =>
      cases y with
      | none =>
          obtain rfl : a = t := Option.some.inj (ht.resolve_right nofun)
          exact ⟨a, rfl, h.refl (hx a rfl)⟩
      | some b =>
          obtain ⟨hleft, hright⟩ := h.later (hx a rfl) (hy b rfl)
          rcases ht with ht | ht <;> cases ht
          · exact ⟨_, rfl, hleft⟩
          · exact ⟨_, rfl, hright⟩

open Number (minusInfinity)

theorem rising_above :
    Rising (fun x : Float => lt minusInfinity x = true) fun x y => le x y = true where
  unit := by decide +kernel
  step := by
    intro a d ha hd
    have hle := Number.le_add ha hd
    exact ⟨Number.lt_of_lt_of_le ha hle, hle⟩
  refl := by
    intro a ha
    exact Number.le_refl (Number.isNaN_of_le (Number.le_of_lt ha)).2
  trans := by
    intro a b c _ _ _ hab hbc
    obtain ⟨ha, hb⟩ := Number.isNaN_of_le hab
    obtain ⟨-, hc⟩ := Number.isNaN_of_le hbc
    rw [Number.le_iff_place ha hb] at hab
    rw [Number.le_iff_place hb hc] at hbc
    exact (Number.le_iff_place ha hc).mpr (hab.trans hbc)
  later := by
    intro a b ha hb
    have ha := (Number.isNaN_of_le (Number.le_of_lt ha)).2
    have hb := (Number.isNaN_of_le (Number.le_of_lt hb)).2
    unfold TimeScalar.later
    split
    · rename_i hlt
      exact ⟨Number.le_of_lt hlt, Number.le_refl hb⟩
    · rename_i hlt
      exact ⟨Number.le_refl ha, Number.le_of_lt_eq_false hb ha (Bool.eq_false_iff.mpr hlt)⟩

/-- A time is not after another one, as far as both are numbers. -/
def NoLater (x y : Float) : Prop := x ≤ y ∨ x.isNaN = true ∨ y.isNaN = true

theorem noLater_of_sunk {x y : Float} (hx : lt minusInfinity x = false)
    (hy : lt minusInfinity y = false) : NoLater x y := by
  have hx := (not_congr Number.above_iff).mp (Bool.eq_false_iff.mp hx)
  have hy := (not_congr Number.above_iff).mp (Bool.eq_false_iff.mp hy)
  have hnan : ∀ z : Float, z.toModel.unpack = .notANumber → z.isNaN = true := by
    intro z hz
    show z.toModel.unpack.isNaN = true
    rw [hz]
    rfl
  rw [not_and_or, not_not, not_not] at hx hy
  rcases hx with hx | hx
  · exact .inr (.inl (hnan x hx))
  · rcases hy with hy | hy
    · exact .inr (.inr (hnan y hy))
    · -- both are minus infinity
      refine .inl (of_decide_eq_true ?_)
      show le x y = true
      rw [Number.le_eq, hx, hy]
      rfl

theorem rising_sunk : Rising (fun x : Float => lt minusInfinity x = false) NoLater where
  unit := by decide +kernel
  step := by
    intro a d ha hd
    have hsum := Number.add_sunk ha hd
    exact ⟨hsum, noLater_of_sunk ha hsum⟩
  refl := fun ha => noLater_of_sunk ha ha
  trans := fun ha _ hc _ _ => noLater_of_sunk ha hc
  later := by
    intro a b ha hb
    unfold TimeScalar.later
    split
    · exact ⟨noLater_of_sunk ha hb, noLater_of_sunk hb hb⟩
    · exact ⟨noLater_of_sunk ha ha, noLater_of_sunk hb ha⟩

end Cuesheet.TimeScalar
