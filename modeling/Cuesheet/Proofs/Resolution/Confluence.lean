import Cuesheet.Proofs.Resolution.Progress

/-!
# The order in which scenes are tried does not matter

A *schedule* tries pending scenes one after the other, in any order and as often as it likes. A
progress that a schedule reaches is `Consistent`: every scene in it is what an attempt against all
the others gives. A progress is `Halted` if all its pending scenes wait. No schedule gets beyond a
halted progress or fails where there is one (`Schedule.le_halted`), and every schedule that cannot
go on has reached it (`Halted.eq_of_maximal`).
-/

namespace Cuesheet

variable {T : Type}

/-- The places of the scenes that are not resolved, in document order. -/
def Progress.pending (progress : Progress T) : List Nat :=
  (List.range progress.length).filter fun i => (progress.at? i).isNone

theorem Progress.mem_pending {progress : Progress T} {i : Nat} :
    i ∈ progress.pending ↔ i < progress.length ∧ progress.at? i = none := by
  simp [Progress.pending]

theorem Progress.pending_map_some (scenes : List (Scene T)) : Progress.pending (scenes.map some) = [] := by
  refine List.filter_eq_nil_iff.mpr fun i hi => ?_
  have hlt : i < scenes.length := by simpa using hi
  rw [Progress.at?_map_some, List.getElem?_eq_getElem hlt]
  exact Bool.false_ne_true

namespace Storyboard

variable [TimeScalar T]

/-! ## Schedules -/

/-- What becomes of a progress when the scene at an index is tried. -/
def tryAt (board : Storyboard T) (progress : Progress T) (index : Nat) :
    Except ResolutionFault (Progress T) :=
  match board.attempt progress index with
  | .ok scene => .ok (progress.set index (some scene))
  | .error (.waiting _) => .ok progress
  | .error (.wrong fault) => .error fault
  | .error (.fault fault) => .error (.arith fault)

/-- The runs that try one pending scene after the other: the places in the order in which they
were tried, and what came out. -/
inductive Schedule (board : Storyboard T) :
    List Nat → Except ResolutionFault (Progress T) → Prop
  | start : Schedule board [] (.ok board.start)
  | tried {order : List Nat} {progress : Progress T} {index : Nat}
      (before : Schedule board order (.ok progress)) (pending : index ∈ progress.pending) :
      Schedule board (order ++ [index]) (board.tryAt progress index)

/-- No pending scene can be resolved against a progress. -/
def Maximal (board : Storyboard T) (progress : Progress T) : Prop :=
  ∀ index ∈ progress.pending, ∀ s, board.attempt progress index ≠ .ok s

/-- Every pending scene waits. -/
def Waits (board : Storyboard T) (progress : Progress T) (index : Nat) : Prop :=
  ∃ r, board.attempt progress index = .error (.waiting r)

variable {board : Storyboard T} {progress more : Progress T} {index : Nat} {s : Scene T}

theorem tryAt_of_ok (h : board.attempt progress index = .ok s) :
    board.tryAt progress index = .ok (progress.set index (some s)) := by
  unfold tryAt; rw [h]

theorem tryAt_of_waits (h : board.Waits progress index) :
    board.tryAt progress index = .ok progress := by
  obtain ⟨r, hr⟩ := h
  unfold tryAt; rw [hr]

theorem tryAt_of_hard {stop : AttemptStop} (h : board.attempt progress index = .error stop)
    (hs : stop.IsHard) : ∃ fault, board.tryAt progress index = .error fault := by
  unfold tryAt
  rw [h]
  cases stop with
  | waiting r => exact hs.elim
  | wrong fault => exact ⟨fault, rfl⟩
  | fault fault => exact ⟨.arith fault, rfl⟩

/-! ## Consistency -/

/-- Every scene is what an attempt against all the others gives. -/
structure Consistent (board : Storyboard T) (progress : Progress T) : Prop where
  of : progress.Of board
  solves : ∀ {i : Nat} {s : Scene T}, progress.at? i = some s →
    board.attempt (progress.set i none) i = .ok s

omit [TimeScalar T] in
theorem start_at? (board : Storyboard T) (i : Nat) : board.start.at? i = none := by
  unfold start Progress.at?
  rw [List.getElem?_replicate]
  split <;> rfl

theorem start_consistent (board : Storyboard T) : board.Consistent board.start where
  of := by
    refine ⟨List.length_replicate, ?_, ?_, ?_⟩ <;>
      · intro i
        simp [start_at?]
  solves := by
    intro i s hi
    rw [start_at?] at hi
    cases hi

omit [TimeScalar T] in
theorem le_set_none (hle : progress.Le more) (hi : progress.at? index = none) :
    progress.Le (List.set more index none) := by
  intro j s hj
  refine Progress.at?_set_none.mpr ⟨?_, hle j s hj⟩
  rintro rfl
  rw [hi] at hj
  cases hj

omit [TimeScalar T] in
theorem set_none_of_none (hi : progress.at? index = none) :
    List.set progress index none = progress := by
  refine Progress.ext_at? (List.length_set ..) fun j => Option.ext fun s => ?_
  rw [Progress.at?_set_none]
  refine ⟨fun h => h.2, fun h => ⟨?_, h⟩⟩
  rintro rfl
  rw [hi] at h
  cases h

omit [TimeScalar T] in
theorem set_none_of (h : progress.Of board) (i : Nat) : Progress.Of (List.set progress i none) board :=
  Progress.Of.of_le h (List.length_set ..) fun _ _ hj => (Progress.at?_set_none.mp hj).2

/-- A scene that resolves against a consistent progress can join it: its attempt saw all the
others, and theirs would not have been changed by it. -/
theorem Consistent.set (h : board.Consistent progress) (hd : board.Distinct)
    (hpend : index ∈ progress.pending) (hs : board.attempt progress index = .ok s) :
    board.Consistent (progress.set index (some s)) := by
  obtain ⟨hid, hnodup, hfree⟩ := attempt_spec hs
  obtain ⟨hlt, hnone⟩ := Progress.mem_pending.mp hpend
  have hof := h.of.set hid hnodup hfree
  refine ⟨hof, ?_⟩
  intro i s' hi
  by_cases hii : index = i
  · subst hii
    rw [Progress.at?_set_self hlt] at hi
    obtain rfl := Option.some.inj hi
    rw [List.set_set, set_none_of_none hnone]
    exact hs
  · have hi' : progress.at? i = some s' := by rwa [Progress.at?_set_ne hii] at hi
    have hle : Progress.Le (List.set progress i none)
        (List.set (List.set progress index (some s)) i none) := by
      intro j s'' hj
      obtain ⟨hji, hj⟩ := Progress.at?_set_none.mp hj
      refine Progress.at?_set_none.mpr ⟨hji, ?_⟩
      rw [Progress.at?_set_ne]
      · exact hj
      · rintro rfl
        rw [hnone] at hj
        cases hj
    refine attempt_ok_of_le (set_none_of h.of i) (set_none_of hof i) hd hle (h.solves hi') ?_
    intro id hid' hin
    obtain ⟨j, s'', hj, hid''⟩ := Progress.Of.mem_cueIds.mp hin
    obtain ⟨hji, hj⟩ := Progress.at?_set_none.mp hj
    exact hji (hof.disjoint hi hj id hid' hid'').symm

theorem Schedule.consistent (hd : board.Distinct) {order : List Nat}
    {outcome : Except ResolutionFault (Progress T)} (h : board.Schedule order outcome) :
    ∀ {progress : Progress T}, outcome = .ok progress → board.Consistent progress := by
  induction h with
  | start => rintro progress ⟨⟩; exact start_consistent board
  | @tried order before index hbefore hpend ih =>
      intro progress hout
      have hcons := ih rfl
      cases hs : board.attempt before index with
      | ok s =>
          rw [tryAt_of_ok hs] at hout
          cases hout
          exact hcons.set hd hpend hs
      | error stop =>
          cases stop with
          | waiting r =>
              rw [tryAt_of_waits ⟨r, hs⟩] at hout
              cases hout
              exact hcons
          | wrong fault =>
              obtain ⟨f, hf⟩ := tryAt_of_hard hs trivial
              rw [hf] at hout
              cases hout
          | fault fault =>
              obtain ⟨f, hf⟩ := tryAt_of_hard hs trivial
              rw [hf] at hout
              cases hout

/-! ## Halted progresses -/

/-- A consistent progress that a schedule reaches and in which all pending scenes wait. -/
structure Halted (board : Storyboard T) (progress : Progress T) : Prop where
  consistent : board.Consistent progress
  waits : ∀ index ∈ progress.pending, board.Waits progress index

/-- Who waits with more knowledge waited with less. -/
theorem Waits.of_le (hw : board.Waits more index) (h : progress.Of board) (hmore : more.Of board)
    (hd : board.Distinct) (hle : progress.Le more) : board.Waits progress index := by
  obtain ⟨r, hr⟩ := hw
  have hset := attempt_settled h hmore hd hle index
  rw [hr] at hset
  cases ha : board.attempt progress index with
  | ok s =>
      rw [ha] at hset
      rcases hset.ok_or_hard with he | ⟨stop, hs, he⟩
      · cases he
      · cases he; exact hs.elim
  | error stop =>
      rw [ha] at hset
      cases stop with
      | waiting r => exact ⟨r, ha⟩
      | wrong fault => obtain ⟨stop, hs, he⟩ := hset.hard trivial; cases he; exact hs.elim
      | fault fault => obtain ⟨stop, hs, he⟩ := hset.hard trivial; cases he; exact hs.elim

/-- Who is resolved with more knowledge was resolved to the same with less, or waited. -/
theorem attempt_of_le (hs : board.attempt more index = .ok s) (h : progress.Of board)
    (hmore : more.Of board) (hd : board.Distinct) (hle : progress.Le more) :
    board.Waits progress index ∨ board.attempt progress index = .ok s := by
  have hset := attempt_settled h hmore hd hle index
  rw [hs] at hset
  cases ha : board.attempt progress index with
  | ok s' =>
      rw [ha] at hset
      rcases hset.ok_or_hard with he | ⟨stop, -, he⟩
      · cases he; exact .inr rfl
      · cases he
  | error stop =>
      rw [ha] at hset
      cases stop with
      | waiting r => exact .inl ⟨r, ha⟩
      | wrong fault => obtain ⟨stop, -, he⟩ := hset.hard trivial; cases he
      | fault fault => obtain ⟨stop, -, he⟩ := hset.hard trivial; cases he

/-- What an attempt below a halted progress comes to: it waits, or gives the scene that is
there. -/
theorem Halted.attempt_below (h : board.Halted more) (hd : board.Distinct)
    (hof : progress.Of board) (hle : progress.Le more) (hpend : index ∈ progress.pending) :
    board.Waits progress index ∨
      ∃ s, board.attempt progress index = .ok s ∧ more.at? index = some s := by
  obtain ⟨hlt, hnone⟩ := Progress.mem_pending.mp hpend
  cases hm : more.at? index with
  | some s =>
      have hsolves := h.consistent.solves hm
      have hle' := le_set_none hle hnone
      rcases attempt_of_le hsolves hof (set_none_of h.consistent.of index) hd hle' with hw | hs
      · exact .inl hw
      · exact .inr ⟨s, hs, rfl⟩
  | none =>
      rw [hof.length, ← h.consistent.of.length] at hlt
      have hw := h.waits index (Progress.mem_pending.mpr ⟨hlt, hm⟩)
      exact .inl (hw.of_le hof h.consistent.of hd hle)

/-- No schedule fails where there is a halted progress, nor gets beyond it. -/
theorem Schedule.le_halted (hmore : board.Halted more) (hd : board.Distinct) {order : List Nat}
    {outcome : Except ResolutionFault (Progress T)} (h : board.Schedule order outcome) :
    ∃ progress, outcome = .ok progress ∧ progress.Le more := by
  induction h with
  | start =>
      refine ⟨board.start, rfl, fun i s hi => ?_⟩
      rw [start_at?] at hi
      cases hi
  | @tried order before index hbefore hpend ih =>
      obtain ⟨progress, heq, hle⟩ := ih
      cases heq
      have hof := (hbefore.consistent hd rfl).of
      rcases hmore.attempt_below hd hof hle hpend with hw | ⟨s, hs, hm⟩
      · exact ⟨before, tryAt_of_waits hw, hle⟩
      · refine ⟨_, tryAt_of_ok hs, fun i s' hi => ?_⟩
        by_cases hii : index = i
        · subst hii
          rw [Progress.at?_set_self (Progress.mem_pending.mp hpend).1] at hi
          exact hm.trans hi
        · exact hle i s' (by rwa [Progress.at?_set_ne hii] at hi)

/-- A schedule that cannot go on has reached what any other schedule reaches. -/
theorem Schedule.le_maximal (hmore : board.Halted more) (hd : board.Distinct)
    {order order' : List Nat} (hprogress : board.Schedule order (.ok progress))
    (hmax : board.Maximal progress) {outcome : Except ResolutionFault (Progress T)}
    (h : board.Schedule order' outcome) :
    ∀ {reached : Progress T}, outcome = .ok reached → reached.Le progress := by
  have hof := (hprogress.consistent hd rfl).of
  have hle : progress.Le more := by
    obtain ⟨p, heq, hle⟩ := hprogress.le_halted hmore hd
    cases heq
    exact hle
  induction h with
  | start =>
      rintro reached ⟨⟩ i s hi
      rw [start_at?] at hi
      cases hi
  | @tried order' before index hbefore hpend ih =>
      intro reached hout
      have hle' := ih rfl
      have hof' := (hbefore.consistent hd rfl).of
      rcases hmore.attempt_below hd hof' (fun i s hi => hle i s (hle' i s hi)) hpend with hw | ⟨s, hs, hm⟩
      · rw [tryAt_of_waits hw] at hout
        cases hout
        exact hle'
      · rw [tryAt_of_ok hs] at hout
        cases hout
        obtain ⟨hlt, -⟩ := Progress.mem_pending.mp hpend
        have hat : progress.at? index = some s := by
          cases hp : progress.at? index with
          | some s' => exact (hle _ _ hp).symm.trans hm
          | none =>
              have hpend' : index ∈ progress.pending :=
                Progress.mem_pending.mpr ⟨by rwa [hof.length, ← hof'.length], hp⟩
              rcases hmore.attempt_below hd hof hle hpend' with hw | ⟨s', hs', -⟩
              · obtain ⟨r, hr⟩ := hw.of_le hof' hof hd hle'
                rw [hs] at hr
                cases hr
              · exact absurd hs' (hmax index hpend' s')
        intro i s' hi
        by_cases hii : index = i
        · subst hii
          rw [Progress.at?_set_self hlt] at hi
          exact hat.trans hi
        · exact hle' i s' (by rwa [Progress.at?_set_ne hii] at hi)

/-- All schedules that cannot go on end in the same progress. -/
theorem Halted.eq_of_maximal (hmore : board.Halted more) (hd : board.Distinct)
    {order order' : List Nat} (hreach : board.Schedule order (.ok more))
    (hprogress : board.Schedule order' (.ok progress)) (hmax : board.Maximal progress) :
    progress = more := by
  have hof := (hprogress.consistent hd rfl).of
  refine Progress.ext_at? (hof.length.trans hmore.consistent.of.length.symm) fun i => ?_
  refine Option.ext fun s => ⟨fun hi => ?_, fun hi => ?_⟩
  · obtain ⟨p, heq, hle⟩ := hprogress.le_halted hmore hd
    cases heq
    exact hle i s hi
  · exact Schedule.le_maximal hmore hd hprogress hmax hreach rfl i s hi

end Storyboard

end Cuesheet
