import Cuesheet.Clock.Timeline
import Cuesheet.Proofs.Number.Signs

/-!
# Clocks that sink

A clock that runs on doubles moves by what is not below zero as long as timestamps do not go
backwards, but where it lands depends on its duration too, and nothing says that this is not below
zero. A frame takes a clock below zero, or to no number at all, exactly if it sinks it
(`Timeline.moved_nonneg_iff`); other frames leave it `Sound`.
-/

namespace Cuesheet

open Number

variable {S : Type}

/-- Neither the time of a clock nor its frame is below zero. -/
structure Timeline.Afloat (tl : Timeline Float S) : Prop where
  time : TimeScalar.le 0 tl.time = true
  frame : 0 ≤ tl.frame

/-- A clock that is not below zero, counts frames that are not, and had its last frame at one of
some timestamps. -/
structure Timeline.Sound (stamps : List Float) (tl : Timeline Float S) : Prop
    extends tl.Afloat where
  fps : tl.fps.isNonpositive = false
  last : ∀ last, tl.lastTimestamp = some last → last ∈ stamps

/-- Where the time since its last frame takes a clock. -/
def Timeline.reached (tl : Timeline Float S) (timestamp : Float) : Float :=
  TimeScalar.add tl.time (TimeScalar.sub timestamp (tl.lastTimestamp.getD timestamp))

/-- A frame takes a clock below zero, or to no number: the clock stops at its duration, and that is
below zero, or it starts over from infinity, of which there is no remainder. -/
def Timeline.Sinks (tl : Timeline Float S) (timestamp : Float) : Prop :=
  tl.mode = .bounded ∧ ∃ duration ∈ tl.duration,
    tl.loop = false ∧ TimeScalar.lt duration 0 = true ∨
      tl.loop = true ∧ TimeScalar.lt 0 duration = true ∧ (tl.reached timestamp).isFinite = false

instance (tl : Timeline Float S) (timestamp : Float) : Decidable (tl.Sinks timestamp) :=
  inferInstanceAs (Decidable (_ ∧ _))

namespace Timeline

variable {tl : Timeline Float S} {stamps : List Float} {timestamp : Float}

theorem Sound.reached (h : tl.Sound stamps) (hfinite : ∀ t ∈ timestamp :: stamps, t.isFinite = true)
    (hforward : ∀ t ∈ stamps, TimeScalar.le t timestamp = true) :
    TimeScalar.le 0 (tl.reached timestamp) = true := by
  have hnow := hfinite timestamp List.mem_cons_self
  refine Number.add_nonneg h.time ?_
  cases hlast : tl.lastTimestamp with
  | none =>
      exact Number.sub_nonneg hnow hnow (Number.le_refl (isNaN_of_isFinite hnow))
  | some last =>
      have hmem := h.last last hlast
      exact Number.sub_nonneg (hfinite last (List.mem_cons_of_mem _ hmem)) hnow (hforward last hmem)

/-- Of a clock that stops at its duration, or starts over there. -/
theorem moved_ends {duration : Float} (hmode : tl.mode = .bounded)
    (hends : tl.duration = some duration) :
    (tl.moved timestamp).time =
      if TimeScalar.le duration (tl.reached timestamp) then
        if tl.loop then
          if TimeScalar.lt 0 duration then TimeScalar.mod (tl.reached timestamp) duration else 0
        else duration
      else tl.reached timestamp := by
  show (tl.land (tl.reached timestamp)).1 = _
  unfold land
  rw [hmode, hends, zero_eq]
  dsimp only
  split
  · split <;> rfl
  · rfl

/-- Of a clock that runs on. -/
theorem moved_on (h : tl.mode = .live ∨ tl.duration = none) :
    (tl.moved timestamp).time = tl.reached timestamp := by
  show (tl.land (tl.reached timestamp)).1 = _
  unfold land
  rcases h with h | h
  · rw [h]
  · rw [h]
    cases tl.mode <;> rfl

/-- A clock that was not below zero is below zero after a frame, or is at no number, exactly if the
frame sinks it. -/
theorem moved_nonneg_iff (h : TimeScalar.le 0 (tl.reached timestamp) = true) :
    TimeScalar.le 0 (tl.moved timestamp).time = true ↔ ¬ tl.Sinks timestamp := by
  have hzero : (0 : Float).isNaN = false := (isNaN_of_le h).1
  unfold Sinks
  cases hmode : tl.mode with
  | live =>
      rw [moved_on (.inl hmode)]
      exact iff_of_true h fun hsinks => nomatch hsinks.1
  | bounded =>
  cases hends : tl.duration with
  | none =>
      rw [moved_on (.inr hends)]
      simp [h]
  | some duration =>
  rw [moved_ends hmode hends]
  split
  · rename_i hle
    have hduration := (isNaN_of_le hle).1
    cases hloop : tl.loop with
    | false =>
        have hbelow : TimeScalar.le 0 duration = true ↔ ¬ TimeScalar.lt duration 0 = true := by
          rw [le_iff_place hzero hduration, lt_iff_place hduration hzero, not_lt]
        simp [hbelow]
    | true =>
        rw [if_pos rfl]
        split
        · rename_i habove
          simp [mod_nonneg_iff habove hle, habove]
        · rename_i habove
          simp [habove, Number.le_refl hzero]
  · rename_i hle
    -- what is not reached is above what is
    refine iff_of_true h ?_
    rintro ⟨-, _, ⟨⟩, ⟨-, hbelow⟩ | ⟨-, habove, hinfinite⟩⟩
    · exact hle (Number.le_of_lt (Number.lt_of_lt_of_le hbelow h))
    · exact hle (le_infinite h hinfinite (isNaN_of_le (Number.le_of_lt habove)).2)

theorem Sound.moved (h : tl.Sound stamps)
    (hnonneg : TimeScalar.le 0 (tl.moved timestamp).time = true) {frame : Int}
    (hframe : 0 ≤ frame) : Sound (stamps ++ [timestamp]) { tl.moved timestamp with frame } where
  time := hnonneg
  frame := hframe
  fps := h.fps
  last last hlast := by
    have hlast : (if (tl.moved timestamp).running then some timestamp else none) = some last :=
      hlast
    split at hlast
    · cases hlast
      exact List.mem_append_right _ (List.mem_singleton_self _)
    · cases hlast

/-- A clock with the same time, frame and rate is as sound, if it remembers no other timestamp. -/
theorem Sound.of_eq (h : tl.Sound stamps) {tl' : Timeline Float S} (htime : tl'.time = tl.time)
    (hframe : tl'.frame = tl.frame) (hfps : tl'.fps = tl.fps)
    (hlast : tl'.lastTimestamp = tl.lastTimestamp ∨ tl'.lastTimestamp = none) :
    tl'.Sound stamps := by
  refine ⟨⟨?_, ?_⟩, ?_, fun last hsome => ?_⟩
  · rw [htime]
    exact h.time
  · rw [hframe]
    exact h.frame
  · rw [hfps]
    exact h.fps
  · rcases hlast with hkept | hnone
    · exact h.last last (hkept.symm.trans hsome)
    · rw [hnone] at hsome
      cases hsome

theorem Sound.later (h : tl.Sound stamps) (timestamp : Float) : tl.Sound (stamps ++ [timestamp]) :=
  ⟨h.toAfloat, h.fps, fun last hlast => List.mem_append_left _ (h.last last hlast)⟩

end Timeline

end Cuesheet
