import Cuesheet.Host.Load
import Mathlib.Data.List.Basic

/-!
# Loads that no longer count

Whatever happens to the loads of a host, only the one that counts can have its fetch under way
(`Sound`): a load that begins and a close cancel it. So a load that does not count any more has
nothing left to do but to end (`Sound.continuation_of_ne`).
-/

namespace Cuesheet.Loads

variable {loads : Loads} {n m : Nat} {state : LoadState}

/-- Only the load that counts is pending, it is one of those that began, and no fetch has broken
down. -/
structure Sound (loads : Loads) : Prop where
  pending : ∀ n, loads.state? n = some .pending → loads.current = some n
  begun : ∀ n, loads.current = some n → n < loads.states.length
  unbroken : ∀ n fault, loads.state? n ≠ some (.done (.broken fault))

theorem sound_empty : Sound {} where
  pending := nofun
  begun := nofun
  unbroken := nofun

/-- A load that does not count any more ends without a result, once its fetch is over. -/
theorem Sound.continuation_of_ne (h : loads.Sound) (hbegun : n < loads.states.length)
    (hother : loads.current ≠ some n) : loads.continuation n = .superseded := by
  have hstate : loads.state? n = some loads.states[n] := List.getElem?_eq_getElem hbegun
  have hcurrent : loads.isCurrent n = false := beq_eq_false_iff_ne.mpr hother
  unfold continuation
  rw [hstate, hcurrent]
  cases hn : loads.states[n] with
  | pending =>
      rw [hn] at hstate
      exact absurd (h.pending n hstate) hother
  | cancelled => rfl
  | done fetched =>
      cases fetched with
      | text text => rfl
      | failed message => rfl
      | broken fault =>
          rw [hn] at hstate
          exact absurd hstate (h.unbroken n fault)

/-- Only the load that counts shows something. -/
theorem current_of_display {text : String} (h : loads.continuation n = .display text) :
    loads.current = some n := by
  unfold continuation at h
  split at h
  · cases h
  · cases h
  · split at h <;> cases h
  · cases h
  · split at h <;> cases h
  · split at h
    · cases h
    · rename_i hcurrent
      simpa [isCurrent] using hcurrent

/-- A load whose fetch has ended is one of those that began. -/
theorem begun_of_continuation (h : loads.continuation n ≠ .waiting) : n < loads.states.length := by
  by_contra hbegun
  refine h ?_
  unfold continuation state?
  rw [List.getElem?_eq_none (Nat.le_of_not_lt hbegun)]

/-! ## The end of a fetch -/

/-- A fetch that is under way ends in some state. -/
def finish (loads : Loads) (n : Nat) (state : LoadState) : Loads :=
  if loads.state? n = some .pending then { loads with states := loads.states.set n state }
  else loads

theorem cancel_eq (loads : Loads) (n : Nat) : loads.cancel n = loads.finish n .cancelled := rfl

theorem finish_current (loads : Loads) (n : Nat) (state : LoadState) :
    (loads.finish n state).current = loads.current := by
  unfold finish
  split <;> rfl

theorem finish_length (loads : Loads) (n : Nat) (state : LoadState) :
    (loads.finish n state).states.length = loads.states.length := by
  unfold finish
  split
  · exact List.length_set
  · rfl

theorem state?_finish (loads : Loads) (n m : Nat) (state : LoadState) :
    (loads.finish n state).state? m =
      if m = n ∧ loads.state? n = some .pending then some state else loads.state? m := by
  unfold finish
  by_cases hpending : loads.state? n = some .pending
  · rw [if_pos hpending]
    by_cases hsame : m = n
    · subst hsame
      rw [if_pos ⟨rfl, hpending⟩]
      exact List.getElem?_set_self (List.getElem?_eq_some_iff.mp hpending).1
    · rw [if_neg fun h => hsame h.1]
      exact List.getElem?_set_ne (Ne.symm hsame)
  · rw [if_neg hpending, if_neg fun h => hpending h.2]

theorem Sound.finish (h : loads.Sound) (n : Nat) (hended : state ≠ .pending)
    (hunbroken : ∀ fault, state ≠ .done (.broken fault)) : (loads.finish n state).Sound where
  pending m hm := by
    rw [state?_finish] at hm
    rw [finish_current]
    split at hm
    · exact absurd (Option.some.inj hm) hended
    · exact h.pending m hm
  begun m hm := by
    rw [finish_current] at hm
    rw [finish_length]
    exact h.begun m hm
  unbroken m fault hm := by
    rw [state?_finish] at hm
    split at hm
    · exact hunbroken fault (Option.some.inj hm)
    · exact h.unbroken m fault hm

/-! ## Loads that begin, and closes -/

theorem cancelCurrent_current (loads : Loads) : loads.cancelCurrent.current = loads.current := by
  unfold cancelCurrent
  split
  · rfl
  · exact finish_current ..

theorem cancelCurrent_length (loads : Loads) :
    loads.cancelCurrent.states.length = loads.states.length := by
  unfold cancelCurrent
  split
  · rfl
  · exact finish_length ..

theorem Sound.cancelCurrent (h : loads.Sound) : loads.cancelCurrent.Sound := by
  unfold Loads.cancelCurrent
  split
  · exact h
  · refine h.finish _ ?_ ?_
    · rintro ⟨⟩
    · rintro _ ⟨⟩

/-- With the load that counts cancelled, none is under way. -/
theorem Sound.cancelCurrent_ended (h : loads.Sound) (n : Nat) :
    loads.cancelCurrent.state? n ≠ some .pending := by
  intro hpending
  have hcurrent := h.cancelCurrent.pending n hpending
  rw [cancelCurrent_current] at hcurrent
  unfold Loads.cancelCurrent at hpending
  rw [hcurrent] at hpending
  dsimp only at hpending
  rw [cancel_eq, state?_finish] at hpending
  split at hpending
  · cases hpending
  · rename_i hnot
    exact hnot ⟨rfl, hpending⟩

theorem Sound.start (h : loads.Sound) : loads.start.2.Sound where
  pending n hn := by
    have hlast : n = loads.cancelCurrent.states.length := by
      by_contra hne
      have hbefore : loads.cancelCurrent.state? n = some .pending := by
        rcases Nat.lt_or_gt_of_ne hne with hlt | hgt
        · exact (List.getElem?_append_left hlt).symm.trans hn
        · have hlength : loads.start.2.states.length = loads.cancelCurrent.states.length + 1 :=
            List.length_append
          have hlt := (List.getElem?_eq_some_iff.mp hn).1
          omega
      exact h.cancelCurrent_ended n hbefore
    exact congrArg some hlast.symm
  begun n hn := by
    cases hn
    exact List.length_append ▸ Nat.lt_succ_self _
  unbroken n fault hn := by
    rcases List.mem_append.mp (List.mem_of_getElem? hn) with hmem | hmem
    · obtain ⟨m, hm⟩ := List.mem_iff_getElem?.mp hmem
      exact h.cancelCurrent.unbroken m fault hm
    · cases List.mem_singleton.mp hmem

theorem start_fst (loads : Loads) : loads.start.1 = loads.states.length :=
  cancelCurrent_length loads

theorem start_current (loads : Loads) : loads.start.2.current = some loads.start.1 := rfl

theorem start_length (loads : Loads) : loads.start.2.states.length = loads.start.1 + 1 :=
  List.length_append

theorem Sound.close (h : loads.Sound) : loads.close.Sound where
  pending n hn := absurd hn (h.cancelCurrent_ended n)
  begun := nofun
  unbroken n fault hn := h.cancelCurrent.unbroken n fault hn

theorem close_length (loads : Loads) : loads.close.states.length = loads.states.length :=
  cancelCurrent_length loads

end Cuesheet.Loads
