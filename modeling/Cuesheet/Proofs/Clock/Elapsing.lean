import Cuesheet.Clock.Timeline
import Cuesheet.Proofs.Time.Exact
import Mathlib.Data.Rat.Floor
import Mathlib.Tactic.Linarith
import Mathlib.Tactic.Ring

/-!
# Where a clock is after some time

With times that are not rounded, a clock need not be followed from frame to frame: where it is
depends on the time that passed since it was started, as on a clock that was read once
(`Timeline.elapsed`). The reason is that a clock that reads a time and then moves on comes to where
it would have come at once (`Timeline.reach_add`), whether it runs on, stops at its duration or
starts over.
-/

namespace Cuesheet

/-- Times on which the operations are those of an ordered field: nothing is rounded. -/
class ExactTime (T : Type) [Field T] [LinearOrder T] [FloorRing T] [TimeScalar T] : Prop
    extends IsStrictOrderedRing T where
  zero_eq : (TimeScalar.zero : T) = 0
  add_eq : ∀ a b : T, TimeScalar.add a b = a + b
  sub_eq : ∀ a b : T, TimeScalar.sub a b = a - b
  lt_eq : ∀ a b : T, TimeScalar.lt a b = decide (a < b)
  le_eq : ∀ a b : T, TimeScalar.le a b = decide (a ≤ b)
  mod_eq : ∀ a b : T, TimeScalar.mod a b = a - b * ⌊a / b⌋
  floor_eq : ∀ a : T, TimeScalar.floor a = .ok ⌊a⌋

instance : ExactTime Rat where
  zero_eq := rfl
  add_eq _ _ := rfl
  sub_eq _ _ := rfl
  lt_eq _ _ := rfl
  le_eq _ _ := rfl
  mod_eq _ _ := rfl
  floor_eq _ := rfl

/-- Every time has a frame number, if the frame rate is exact, too. -/
theorem ExactTime.frameAt_eq {T : Type} [Field T] [LinearOrder T] [FloorRing T] [TimeScalar T]
    [ExactTime T] {fps : Number} {rate : T} (hrate : TimeScalar.ofNumber fps = .ok rate)
    (time : T) : TimeScalar.frameAt time fps = .ok ⌊TimeScalar.mul time rate⌋ := by
  unfold TimeScalar.frameAt
  rw [hrate]
  exact floor_eq _

namespace Timeline

variable {T S : Type} [Field T] [LinearOrder T] [FloorRing T]

/-- Where a clock is when so much time has come together since it was at zero: there, or at its
duration if it stops there, or at what is left over if it starts over. -/
def reach (tl : Timeline T S) (total : T) : T :=
  match tl.mode, tl.duration with
  | .bounded, some duration =>
    if tl.loop then (if duration = 0 then 0 else total - duration * ⌊total / duration⌋)
    else min duration total
  | _, _ => total

/-- Where a clock is some time after it was started. -/
def elapsed (tl : Timeline T S) (span : T) : T := tl.reach (tl.time + span)

omit [Field T] [LinearOrder T] [FloorRing T] in
/-- The time at which a clock stops by itself. -/
def final? (tl : Timeline T S) : Option T :=
  match tl.mode, tl.loop with
  | .bounded, false => tl.duration
  | _, _ => none

/-- Its time and its duration are not below zero. -/
structure Nonnegative (tl : Timeline T S) : Prop where
  time : 0 ≤ tl.time
  duration : ∀ duration, tl.duration = some duration → 0 ≤ duration

omit [Field T] [LinearOrder T] [FloorRing T] in
/-- A clock stops at a duration, starts over there, or runs on. -/
theorem kinds (tl : Timeline T S) :
    (∃ duration, tl.mode = .bounded ∧ tl.loop = false ∧ tl.duration = some duration) ∨
      (∃ duration, tl.mode = .bounded ∧ tl.loop = true ∧ tl.duration = some duration) ∨
        (tl.mode = .live ∨ tl.duration = none) := by
  cases tl.mode <;> cases tl.loop <;> cases tl.duration <;> simp

theorem reach_stopping {tl : Timeline T S} {duration : T} (h : tl.final? = some duration)
    (total : T) : tl.reach total = min duration total := by
  unfold final? at h
  split at h
  · rename_i hmode hloop
    simp [reach, hmode, hloop, h]
  · cases h

/-- What is left over is between zero and the duration. -/
theorem leftOver_bounds [IsStrictOrderedRing T] {duration : T} (h : 0 < duration) (total : T) :
    0 ≤ total - duration * ⌊total / duration⌋ ∧ total - duration * ⌊total / duration⌋ < duration := by
  have hbelow : (⌊total / duration⌋ : T) ≤ total / duration := Int.floor_le _
  have habove : total / duration < ⌊total / duration⌋ + 1 := Int.lt_floor_add_one _
  rw [le_div_iff₀ h] at hbelow
  rw [div_lt_iff₀ h] at habove
  constructor <;> linarith

/-- Taking whole durations away changes nothing about what is left over. -/
theorem leftOver_sub [IsStrictOrderedRing T] {duration : T} (h : duration ≠ 0) (total : T) (n : ℤ) :
    total - duration * n - duration * ⌊(total - duration * n) / duration⌋ =
      total - duration * ⌊total / duration⌋ := by
  have hdiv : (total - duration * n) / duration = total / duration - n := by
    rw [sub_div, mul_div_cancel_left₀ _ h]
  rw [hdiv, Int.floor_sub_intCast]
  push_cast
  ring

section

variable [IsStrictOrderedRing T] {tl : Timeline T S} {total step : T}

theorem reach_nonneg (h : tl.Nonnegative) (htotal : 0 ≤ total) : 0 ≤ tl.reach total := by
  rcases tl.kinds with ⟨duration, hmode, hloop, hd⟩ | ⟨duration, hmode, hloop, hd⟩ | hfree
  · simp [reach, hmode, hloop, hd, htotal, h.duration duration hd]
  · have hnonneg := h.duration duration hd
    by_cases hzero : duration = 0
    · simp [reach, hmode, hloop, hd, hzero]
    · have hpos : 0 < duration := lt_of_le_of_ne hnonneg (Ne.symm hzero)
      have hbounds := leftOver_bounds hpos total
      simp only [reach, hmode, hloop, hd, hzero, if_true, if_false]
      exact hbounds.1
  · rcases hfree with hmode | hnone
    · simpa [reach, hmode] using htotal
    · simpa [reach, hnone] using htotal

/-- Reading a clock and going on from there leads where going on at once would have led. -/
theorem reach_add (hstep : 0 ≤ step) : tl.reach (tl.reach total + step) = tl.reach (total + step) := by
  rcases tl.kinds with ⟨duration, hmode, hloop, hd⟩ | ⟨duration, hmode, hloop, hd⟩ | hfree
  · have hfinal : tl.final? = some duration := by simp [final?, hmode, hloop, hd]
    rw [reach_stopping hfinal, reach_stopping hfinal, reach_stopping hfinal]
    rcases le_total duration total with hover | hunder
    · rw [min_eq_left hover, min_eq_left (by linarith), min_eq_left (by linarith)]
    · rw [min_eq_right hunder]
  · by_cases hzero : duration = 0
    · simp [reach, hmode, hloop, hd, hzero]
    · simp only [reach, hmode, hloop, hd, hzero, if_true, if_false]
      have hswap : total - duration * ⌊total / duration⌋ + step =
          total + step - duration * ⌊total / duration⌋ := by ring
      rw [hswap, leftOver_sub hzero]
  · rcases hfree with hmode | hnone
    · simp [reach, hmode]
    · simp [reach, hnone]

end

/-! ## Frames -/

variable [TimeScalar T] [ExactTime T] {tl : Timeline T S} {total : T}

theorem land_eq_reach (h : tl.Nonnegative) (htotal : 0 ≤ total) :
    (tl.land total).1 = tl.reach total := by
  rcases tl.kinds with ⟨duration, hmode, hloop, hd⟩ | ⟨duration, hmode, hloop, hd⟩ | hfree
  · rcases le_or_gt duration total with hover | hunder
    · simp [land, reach, hmode, hloop, hd, ExactTime.le_eq, hover]
    · simp [land, reach, hmode, hloop, hd, ExactTime.le_eq, hunder.le, not_le.mpr hunder]
  · have hnonneg := h.duration duration hd
    rcases hnonneg.eq_or_lt with hzero | hpos
    · subst hzero
      simp [land, reach, hmode, hloop, hd, ExactTime.le_eq, ExactTime.lt_eq, ExactTime.zero_eq,
        htotal]
    · rcases le_or_gt duration total with hover | hunder
      · simp [land, reach, hmode, hloop, hd, ExactTime.le_eq, ExactTime.lt_eq, ExactTime.zero_eq,
          ExactTime.mod_eq, hover, hpos, hpos.ne']
      · have hfloor : ⌊total / duration⌋ = 0 := by
          rw [Int.floor_eq_zero_iff]
          exact ⟨div_nonneg htotal hpos.le, (div_lt_one hpos).mpr hunder⟩
        simp [land, reach, hmode, hloop, hd, ExactTime.le_eq, not_le.mpr hunder, hpos.ne', hfloor]
  · rcases hfree with hmode | hnone
    · simp [land, reach, hmode]
    · simp [land, reach, hnone]

/-- A clock runs on unless it stops at its duration and has come there. -/
theorem land_runs : (tl.land total).2 = true ↔
    ∀ duration, tl.final? = some duration → total < duration := by
  rcases tl.kinds with ⟨duration, hmode, hloop, hd⟩ | ⟨duration, hmode, hloop, hd⟩ | hfree
  · rcases le_or_gt duration total with hover | hunder
    · simp [land, final?, hmode, hloop, hd, ExactTime.le_eq, hover]
    · simp [land, final?, hmode, hloop, hd, ExactTime.le_eq, hunder, not_le.mpr hunder]
  · rcases le_or_gt duration total with hover | hunder
    · simp [land, final?, hmode, hloop, hd, ExactTime.le_eq, hover]
    · simp [land, final?, hmode, hloop, hd, ExactTime.le_eq, not_le.mpr hunder]
  · rcases hfree with hmode | hnone
    · simp [land, final?, hmode]
    · cases hmode : tl.mode <;> cases hloop : tl.loop <;>
        simp [land, final?, hmode, hloop, hnone]

/-- Two clocks are set alike. -/
structure SetAs {S' : Type} (tl : Timeline T S) (start : Timeline T S') : Prop where
  mode : tl.mode = start.mode
  loop : tl.loop = start.loop
  duration : tl.duration = start.duration
  fps : tl.fps = start.fps

/-- A clock as its frames have left it since it was started, the last one at a time at which it
would have come to a total if it had run on. -/
structure Along {S' : Type} (start : Timeline T S') (total last : T) (tl : Timeline T S) : Prop
    extends SetAs tl start where
  time : tl.time = start.reach total
  last : tl.running = true → tl.lastTimestamp = some last
  runs : tl.running = true ↔ ∀ duration, start.final? = some duration → total < duration

variable {S' : Type} {start : Timeline T S'} {last timestamp : T}

omit [LinearOrder T] [FloorRing T] [Field T] [ExactTime T] in
theorem SetAs.land (h : SetAs tl start) : tl.land = start.land := by
  funext total
  simp only [Timeline.land, h.mode, h.loop, h.duration]

omit [TimeScalar T] [ExactTime T] in
theorem SetAs.reach (h : SetAs tl start) : tl.reach = start.reach := by
  funext total
  simp only [Timeline.reach, h.mode, h.loop, h.duration]

/-- Where a frame takes a clock that runs. -/
theorem SetAs.moved (h : SetAs tl start) (hstart : start.Nonnegative)
    (hhere : 0 ≤ tl.time + (timestamp - tl.lastTimestamp.getD timestamp))
    (hreach : start.reach (tl.time + (timestamp - tl.lastTimestamp.getD timestamp)) =
      start.reach total) : Along start total timestamp (tl.moved timestamp) := by
  have hnext : TimeScalar.add tl.time
      (TimeScalar.sub timestamp (tl.lastTimestamp.getD timestamp)) =
        tl.time + (timestamp - tl.lastTimestamp.getD timestamp) := by
    rw [ExactTime.add_eq, ExactTime.sub_eq]
  refine ⟨⟨h.mode, h.loop, h.duration, h.fps⟩, ?_, fun hrun => ?_, ?_⟩
  · simp only [Timeline.moved, hnext, h.land]
    rw [land_eq_reach hstart hhere, hreach]
  · simp only [Timeline.moved] at hrun ⊢
    rw [if_pos hrun]
  · simp only [Timeline.moved, hnext, h.land]
    rw [land_runs]
    refine forall_congr' fun duration => imp_congr_right fun hfinal => ?_
    rw [reach_stopping hfinal, reach_stopping hfinal] at hreach
    have hbelow (a : T) : a < duration ↔ min duration a < duration := by simp
    rw [hbelow, hreach, ← hbelow]

/-- The first frame leaves a clock where it was started. -/
theorem SetAs.moved_first (h : SetAs tl start) (hstart : start.Nonnegative)
    (htime : tl.time = start.time) (hlast : tl.lastTimestamp = none) :
    Along start start.time timestamp (tl.moved timestamp) := by
  have hhere : tl.time + (timestamp - tl.lastTimestamp.getD timestamp) = start.time := by
    simp [htime, hlast]
  refine h.moved hstart ?_ ?_
  · rw [hhere]
    exact hstart.time
  · rw [hhere]

/-- Every further frame adds the time that passed to the total. -/
theorem Along.moved (h : Along start total last tl) (hstart : start.Nonnegative)
    (htotal : 0 ≤ total) (hrun : tl.running = true) (hforward : last ≤ timestamp) :
    Along start (total + (timestamp - last)) timestamp (tl.moved timestamp) := by
  have hstep : 0 ≤ timestamp - last := sub_nonneg.mpr hforward
  have hhere : tl.time + (timestamp - tl.lastTimestamp.getD timestamp) =
      start.reach total + (timestamp - last) := by
    rw [h.time, h.last hrun, Option.getD_some]
  refine h.toSetAs.moved hstart ?_ ?_
  · rw [hhere]
    exact add_nonneg (reach_nonneg hstart htotal) hstep
  · rw [hhere]
    exact reach_add hstep

omit [TimeScalar T] [ExactTime T] in
/-- A clock that has stopped at its duration stays there. -/
theorem Along.later (h : Along start total last tl) (hstopped : tl.running = false)
    {total' last' : T} (hlater : total ≤ total') : Along start total' last' tl := by
  have hended : ∃ duration, start.final? = some duration ∧ duration ≤ total := by
    by_contra hnever
    push Not at hnever
    have hrun := h.runs.mpr hnever
    rw [hstopped] at hrun
    cases hrun
  obtain ⟨duration, hfinal, hover⟩ := hended
  refine ⟨h.toSetAs, ?_, fun hrun => ?_, ?_⟩
  · rw [h.time, reach_stopping hfinal, reach_stopping hfinal, min_eq_left hover,
      min_eq_left (hover.trans hlater)]
  · rw [hstopped] at hrun
    cases hrun
  · rw [hstopped]
    refine ⟨fun hrun => (nomatch hrun), fun hnever => ?_⟩
    exact absurd (hnever duration hfinal) (not_lt.mpr (hover.trans hlater))

end Timeline

end Cuesheet
