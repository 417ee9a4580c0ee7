import Cuesheet.Proofs.Number.Doubles

/-!
# The latest of some times

Among times that `lt` orders (`Ordered`), as it orders all doubles but NaN (`ordered_isNaN`), it
does not matter in which groups the latest one is looked for (`laterEnd_assoc`), nor whether a time
is looked at twice (`latest?_again`). The first one among equals is found either way.
-/

namespace Cuesheet.TimeScalar

variable {T : Type} [TimeScalar T] {p : T → Prop} {a b c : T}

/-- The times with a property are ordered, up to being equal. -/
structure Ordered (p : T → Prop) : Prop where
  asymm : ∀ {a b : T}, p a → p b → lt a b = true → lt b a = false
  trans : ∀ {a b c : T}, p a → p b → p c → lt a b = false → lt b c = false → lt a c = false

theorem ordered_isNaN : Ordered fun x : Float => x.isNaN = false where
  asymm := by
    intro a b ha hb hab
    rw [Number.lt_iff_place ha hb] at hab
    rw [Bool.eq_false_iff, ne_eq, Number.lt_iff_place hb ha]
    exact hab.asymm
  trans := by
    intro a b c ha hb hc hab hbc
    rw [Bool.eq_false_iff, ne_eq, Number.lt_iff_place ha hb] at hab
    rw [Bool.eq_false_iff, ne_eq, Number.lt_iff_place hb hc] at hbc
    rw [Bool.eq_false_iff, ne_eq, Number.lt_iff_place ha hc]
    exact not_lt.mpr ((not_lt.mp hbc).trans (not_lt.mp hab))

namespace Ordered

theorem irrefl (h : Ordered p) (ha : p a) : lt a a = false := by
  cases hlt : lt a a with
  | false => rfl
  | true => exact hlt.symm.trans (h.asymm ha ha hlt)

theorem later_assoc (h : Ordered p) (ha : p a) (hb : p b) (hc : p c) :
    later (later a b) c = later a (later b c) := by
  unfold later
  cases hab : lt a b <;> cases hbc : lt b c
  · simp only [Bool.false_eq_true, if_false, hab, h.trans ha hb hc hab hbc]
  · simp only [Bool.false_eq_true, if_false, if_true]
  · simp only [Bool.false_eq_true, if_false, if_true, hab, hbc]
  · -- `c` is above `a`: otherwise, being above `b`, it would put `a` above `b`
    have hac : lt a c = true := by
      cases hac : lt a c with
      | true => rfl
      | false => exact absurd hab (by rw [h.trans ha hc hb hac (h.asymm hb hc hbc)]; nofun)
    simp only [if_true, hbc, hac]

end Ordered

/-! ## Ends that may be missing -/

/-- A time has a property, if it is there. -/
def Holds (p : T → Prop) (o : Option T) : Prop := ∀ t, o = some t → p t

variable {x y z : Option T}

omit [TimeScalar T] in
theorem holds_none : Holds p none := nofun

theorem later_cases (a b : T) : later a b = a ∨ later a b = b := by
  unfold later
  split
  · exact .inr rfl
  · exact .inl rfl

theorem laterEnd_cases (x y : Option T) : laterEnd x y = x ∨ laterEnd x y = y := by
  cases x with
  | none => exact .inr rfl
  | some a =>
      cases y with
      | none => exact .inl rfl
      | some b => exact (later_cases a b).imp (congrArg some) (congrArg some)

theorem Holds.laterEnd (hx : Holds p x) (hy : Holds p y) : Holds p (laterEnd x y) := by
  rcases laterEnd_cases x y with h | h <;> rw [h] <;> assumption

theorem laterEnd_none (x : Option T) : laterEnd x none = x := by cases x <;> rfl

theorem isSome_laterEnd (x y : Option T) : (laterEnd x y).isSome = (x.isSome || y.isSome) := by
  cases x <;> cases y <;> rfl

theorem laterEnd_assoc (h : Ordered p) (hx : Holds p x) (hy : Holds p y) (hz : Holds p z) :
    laterEnd (laterEnd x y) z = laterEnd x (laterEnd y z) := by
  cases x with
  | none => rfl
  | some a =>
      cases y with
      | none => rfl
      | some b =>
          cases z with
          | none => rfl
          | some c => exact congrArg some (h.later_assoc (hx a rfl) (hy b rfl) (hz c rfl))

/-! ## Lists of times -/

theorem latest?_concat (l : List T) (t : T) : latest? (l ++ [t]) = laterEnd (latest? l) (some t) := by
  cases l with
  | nil => rfl
  | cons a rest =>
      show some ((rest ++ [t]).foldl later a) = some (later (rest.foldl later a) t)
      rw [List.foldl_append]
      rfl

/-- The latest of some times is one of them, and none of them is above it. -/
theorem latest?_spec (h : Ordered p) {l : List T} (hl : ∀ t ∈ l, p t) {m : T}
    (hm : latest? l = some m) : m ∈ l ∧ ∀ t ∈ l, lt m t = false := by
  induction l using List.reverseRecOn generalizing m with
  | nil => cases hm
  | append_singleton l t ih =>
      rw [latest?_concat] at hm
      have ht : p t := hl t (by simp)
      have hirrefl : lt t t = false := h.irrefl ht
      cases hlast : latest? l with
      | none =>
          have hnil : l = [] := by
            cases l with
            | nil => rfl
            | cons a rest => cases hlast
          rw [hlast] at hm
          cases hm
          simpa [hnil] using hirrefl
      | some n =>
          have hbefore : ∀ t ∈ l, p t := fun t ht => hl t (List.mem_append_left _ ht)
          obtain ⟨hmem, habove⟩ := ih hbefore hlast
          rw [hlast] at hm
          obtain rfl : later n t = m := Option.some.inj hm
          unfold later
          split
          · rename_i hlt
            refine ⟨by simp, fun s hs => ?_⟩
            rcases List.mem_append.mp hs with hs | hs
            · exact h.trans ht (hbefore n hmem) (hbefore s hs)
                (h.asymm (hbefore n hmem) ht hlt) (habove s hs)
            · rwa [List.mem_singleton.mp hs]
          · rename_i hlt
            refine ⟨List.mem_append_left _ hmem, fun s hs => ?_⟩
            rcases List.mem_append.mp hs with hs | hs
            · exact habove s hs
            · rw [List.mem_singleton.mp hs]
              exact Bool.eq_false_iff.mpr hlt

/-- To look at a time again changes nothing. -/
theorem latest?_again (h : Ordered p) {l : List T} (hl : ∀ t ∈ l, p t) {t : T} (ht : t ∈ l) :
    latest? (l ++ [t]) = latest? l := by
  rw [latest?_concat]
  cases hlast : latest? l with
  | none =>
      cases l with
      | nil => cases ht
      | cons a rest => cases hlast
  | some m =>
      have habove := (latest?_spec h hl hlast).2 t ht
      show some (if lt m t then t else m) = some m
      rw [habove]
      rfl

end Cuesheet.TimeScalar
