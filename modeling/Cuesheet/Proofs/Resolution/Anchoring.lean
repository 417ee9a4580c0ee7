import Cuesheet.Proofs.Expr.References
import Cuesheet.Proofs.Resolution.Sequencing

/-!
# Formulas that are not anchored

Whatever looks at the time of something else is anchored (`anchored_of_waiting`). So a formula that
is not anchored never waits, and knowing more, or something else, does not change what it comes to:
with nothing known it comes to the same. An offset is therefore only ever added to a value that no
other element has a say in (`unanchored_free`).
-/

namespace Cuesheet

variable {T : Type} [TimeScalar T]

namespace Expr

variable {known known' : Known T} {e : Expr} {r : Reference}

/-! ## What waits is anchored -/

theorem anchored_of_reference? (h : e.reference? = some r) : e.isAnchored = true := by
  unfold reference? at h
  split at h
  all_goals first | rfl | cases h

mutual

/-- A formula that mentions a time is anchored. -/
theorem anchored_of_mem_references : ∀ {e : Expr}, r ∈ e.references → e.isAnchored = true
  | .number _ _, h => by cases h
  | .name _, h => by cases h
  | .signed negated operand, h => by
      rw [references] at h
      rw [isAnchored]
      exact anchored_of_mem_references h
  | .binary op left right, h => by
      rw [references, List.mem_append] at h
      rw [isAnchored, Bool.or_eq_true]
      exact h.imp anchored_of_mem_references anchored_of_mem_references
  | .call function args, h => by
      rw [references, List.mem_append, Option.mem_toList] at h
      rcases h with h | h
      · exact anchored_of_reference? h
      · rw [isAnchored, Bool.or_eq_true]
        exact .inr (anyAnchored_of_mem_references h)
  | .property target prop, h => by
      rw [references, Option.mem_toList] at h
      exact anchored_of_reference? h

/-- Where some formulas mention a time, one of them is anchored. -/
theorem anyAnchored_of_mem_references : ∀ {es : List Expr}, r ∈ referencesAll es →
    anyAnchored es = true
  | [], h => by cases h
  | e :: rest, h => by
      rw [referencesAll, List.mem_append] at h
      rw [anyAnchored, Bool.or_eq_true]
      exact h.imp anchored_of_mem_references anyAnchored_of_mem_references

end

/-- A formula that waits for a time is anchored. -/
theorem anchored_of_waiting (h : e.evaluate known = .error (.waiting r)) : e.isAnchored = true :=
  anchored_of_mem_references ((evaluate_consults e).waiting h).1

/-! ## What is not anchored depends on nothing -/

omit [TimeScalar T] in
/-- Whatever is known is more than nothing. -/
theorem nothing_le (known : Known T) : Known.Le { fps := known.fps } known where
  fps := rfl
  lookup r _ h := by cases r <;> cases h

theorem evaluate_nothing (h : e.isAnchored = false) (known : Known T) :
    e.evaluate known = e.evaluate { fps := known.fps } := by
  refine Settled.eq (evaluate_settled (nothing_le known) e) fun r hwaits => ?_
  rw [anchored_of_waiting hwaits] at h
  cases h

/-- A formula comes to something else if something else is known, at the same frame rate. -/
def Depends (e : Expr) (known : Known T) : Prop :=
  ∃ known' : Known T, known'.fps = known.fps ∧ e.evaluate known' ≠ e.evaluate known

theorem Depends.anchored (h : e.Depends known) : e.isAnchored = true := by
  obtain ⟨known', hfps, hne⟩ := h
  by_contra hplain
  rw [Bool.not_eq_true] at hplain
  rw [evaluate_nothing hplain known', evaluate_nothing hplain known, hfps] at hne
  exact hne rfl

end Expr

namespace Attempt

/-- What is placed is the value of an anchored formula, or that of another one as an offset. -/
theorem place?_eq {setting : Setting T} {el : Element} {name raw : String} {e : Expr}
    (hget : el.get? name = some raw) (he : Expr.ofText raw = .ok e) (base scale : T) :
    place? setting el name base scale = (do
      let value ← evaluate setting raw
      return some (if e.isAnchored then value
        else TimeScalar.add base (TimeScalar.mul value scale))) := by
  have hanchored : isAnchored raw = e.isAnchored := by rw [isAnchored, he]
  unfold place?
  rw [hget]
  dsimp only
  rw [hanchored]
  refine bind_congr fun value => ?_
  cases e.isAnchored <;> rfl

/-- A formula that is not anchored comes to the same whatever is known, and never waits; what waits
is anchored. A value that depends on something else is placed as it is, and only what does not is
added to where an element is placed. -/
theorem unanchored_free (e : Expr) :
    (e.isAnchored = false → ∀ known known' : Known T, known'.fps = known.fps →
      e.evaluate known' = e.evaluate known ∧ ∀ r, e.evaluate known ≠ .error (.waiting r)) ∧
    (∀ (known : Known T) (r : Reference), e.evaluate known = .error (.waiting r) →
      e.isAnchored = true) ∧
    ∀ (setting : Setting T) (draft : Draft T) (el : Element) (name raw : String) (base scale : T),
      el.get? name = some raw → Expr.ofText raw = .ok e →
        (e.Depends (knownNow setting draft) → place? setting el name base scale draft =
          (do return some (← evaluate setting raw) : Attempt T (Option T)) draft) ∧
        (e.isAnchored = false → place? setting el name base scale draft =
          (do
            let value ← evaluate setting raw
            return some (TimeScalar.add base (TimeScalar.mul value scale)) :
              Attempt T (Option T)) draft) := by
  refine ⟨fun hplain known known' hfps => ⟨?_, fun r hwaits => ?_⟩,
    fun known r => Expr.anchored_of_waiting, ?_⟩
  · rw [Expr.evaluate_nothing hplain known', Expr.evaluate_nothing hplain known, hfps]
  · rw [Expr.anchored_of_waiting hwaits] at hplain
    cases hplain
  · intro setting draft el name raw base scale hget he
    rw [place?_eq hget he]
    constructor
    · intro hdepends
      rw [hdepends.anchored]
      rfl
    · intro hplain
      rw [hplain]
      rfl

/-- A box that starts when the scene before ends, or after so long. -/
def boxAt (start : String) : Element where
  tag := "box"
  attributes := [("start", start)]

/-- A scene in whose surroundings the scene before has ended. -/
def followed : Setting Float where
  known := { fps := .int 24, prevStart := some 0, prevEnd := some 7 }
  takenCues := []
  isFirst := false
  scale := 1

/-- What a computation waits for. -/
def waitsFor? {ε α : Type} : Except (Stop ε) α → Option Reference
  | .error (.waiting r) => some r
  | _ => none

theorem waiting_of_waitsFor? {ε α : Type} {outcome : Except (Stop ε) α} {r : Reference}
    (h : waitsFor? outcome = some r) : outcome = .error (.waiting r) := by
  unfold waitsFor? at h
  split at h
  · obtain rfl := Option.some.inj h
    rfl
  · cases h

theorem unanchored_free_boxAt :
    (∃ e, Expr.ofText "max(48f, 1s) + 500ms" = .ok e ∧ e.isAnchored = false ∧
      e.evaluate followed.known = e.evaluate ({ fps := .int 24 } : Known Float) ∧
      ∀ base : Float, place? followed (boxAt "max(48f, 1s) + 500ms") "start" base 2 {} =
        (do
          let value ← evaluate followed "max(48f, 1s) + 500ms"
          return some (base + value * 2) : Attempt Float (Option Float)) {}) ∧
    ∃ e r, Expr.ofText "prev.end + 1s" = .ok e ∧
      e.evaluate ({ fps := .int 24 } : Known Float) = .error (.waiting r) ∧ e.isAnchored = true ∧
      ∀ base : Float, place? followed (boxAt "prev.end + 1s") "start" base 2 {} =
        (do return some (← evaluate followed "prev.end + 1s") : Attempt Float (Option Float)) {} := by
  constructor
  · have hplain : (Expr.ofText "max(48f, 1s) + 500ms").toOption.any (fun e => !e.isAnchored) =
        true := by
      decide +kernel
    obtain ⟨e, he, hplain⟩ := exists_ok_of_any hplain
    rw [Bool.not_eq_true'] at hplain
    obtain ⟨hfree, -, hplaced⟩ := unanchored_free (T := Float) e
    refine ⟨e, he, hplain, (hfree hplain { fps := .int 24 } followed.known rfl).1, fun base => ?_⟩
    exact (hplaced followed {} (boxAt _) "start" _ base 2 rfl he).2 hplain
  · -- it has a value once the end of the scene before is known, and waits for it until then
    have hvalue : (Expr.ofText "prev.end + 1s").toOption.any (fun e =>
        (e.evaluate (knownNow followed {})).toOption.isSome &&
          (waitsFor? (e.evaluate ({ fps := .int 24 } : Known Float))).isSome) = true := by
      decide +kernel
    obtain ⟨e, he, hvalue⟩ := exists_ok_of_any hvalue
    obtain ⟨hvalue, hwaits⟩ := Bool.and_eq_true_iff.mp hvalue
    obtain ⟨r, hwaits⟩ := Option.isSome_iff_exists.mp hwaits
    have hwaits := waiting_of_waitsFor? hwaits
    have hdepends : e.Depends (knownNow followed {}) := by
      refine ⟨{ fps := .int 24 }, rfl, fun heq => ?_⟩
      rw [← heq, hwaits] at hvalue
      cases hvalue
    obtain ⟨-, hanchored, hplaced⟩ := unanchored_free (T := Float) e
    exact ⟨e, r, he, hwaits, hanchored _ r hwaits, fun base =>
      (hplaced followed {} (boxAt _) "start" _ base 2 rfl he).1 hdepends⟩

end Attempt

end Cuesheet
