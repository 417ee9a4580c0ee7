import Cuesheet.Proofs.Stage.Clocks

/-!
# What actions keep

An action *keeps* what is still true after it whenever it was true before, also if the action
fails. What the parts of an action keep, the action keeps. An action *goes* with something if it
goes through wherever that is true, and keeps it. Two actions come to the same if their first parts
do and their second parts do wherever the first part leads (`bind_congr_ok`).

What happens on the way is told by an outside world that keeps a history (`recorded`), to which
whoever takes part adds.
-/

namespace Cuesheet.Stage

variable {T C W α β : Type} {I : Stage T C W → Prop}

theorem bind_congr_ok {act act' : Action T C W α} {next next' : α → Action T C W β}
    {s s' : Stage T C W} (hact : act s = act' s')
    (hnext : ∀ a s₁, act' s' = .ok a s₁ → next a s₁ = next' a s₁) :
    (act >>= next) s = (act' >>= next') s' := by
  cases hrun : act' s' with
  | ok a s₁ => rw [bind_ok (hact.trans hrun), bind_ok hrun, hnext a s₁ hrun]
  | error fault s₁ => rw [bind_error (hact.trans hrun), bind_error hrun]

theorem modify_bind (f : Stage T C W → Stage T C W) (next : Unit → Action T C W β)
    (s : Stage T C W) : (modify f >>= next) s = next () (f s) := rfl

theorem ok_of_bind {act : Action T C W α} {next : α → Action T C W β} {s s' : Stage T C W} {b : β}
    (h : (act >>= next) s = .ok b s') : ∃ a s₁, act s = .ok a s₁ ∧ next a s₁ = .ok b s' := by
  cases hrun : act s with
  | ok a s₁ =>
      rw [bind_ok hrun] at h
      exact ⟨a, s₁, rfl, h⟩
  | error fault s₁ =>
      rw [bind_error hrun] at h
      cases h

/-- A change of one member of a list is known by what it makes of the member that is there. -/
theorem modify_congr_of_getElem? {xs : List α} {i : Nat} {x : α} {f g : α → α}
    (hx : xs[i]? = some x) (hfg : f x = g x) : xs.modify i f = xs.modify i g := by
  refine List.ext_getElem? fun j => ?_
  rw [List.getElem?_modify, List.getElem?_modify]
  split
  · rename_i hj
    rw [← hj, hx]
    exact congrArg some hfg
  · rfl

/-- Whether an action went through. -/
def isOk (r : EStateM.Result (StageFault T) (Stage T C W) α) : Bool :=
  match r with
  | .ok _ _ => true
  | .error _ _ => false

theorem ok_after {act : Action T C W Unit} {s : Stage T C W} (h : isOk (act s) = true) :
    act s = .ok () (after act s) := by
  unfold after
  cases hrun : act s with
  | ok _ s' => rfl
  | error fault s' => rw [hrun] at h; cases h

theorem ofArith_ok {value : Except ArithFault α} {s s' : Stage T C W} {a : α}
    (h : ofArith value s = .ok a s') : value = .ok a ∧ s' = s := by
  cases value with
  | error fault => cases h
  | ok a => cases h; exact ⟨rfl, rfl⟩

/-- Whatever stage with `I` an action starts on, it leaves one with `J` behind, also if it fails. -/
def Leads (I J : Stage T C W → Prop) (act : Action T C W α) : Prop := ∀ s, I s → J (after act s)

/-- What an action leads to is led on by what follows, and has to do if it fails. -/
theorem Leads.bind {J K : Stage T C W → Prop} {act : Action T C W α} {next : α → Action T C W β}
    (hact : Leads I J act) (hnext : ∀ a, Leads J K (next a)) (hfail : ∀ s, J s → K s) :
    Leads I K (act >>= next) := by
  intro s h
  have hfirst := hact s h
  unfold after at hfirst ⊢
  cases hrun : act s with
  | ok a s' =>
      rw [hrun] at hfirst
      rw [bind_ok hrun]
      exact hnext a s' hfirst
  | error fault s' =>
      rw [hrun] at hfirst
      rw [bind_error hrun]
      exact hfail s' hfirst

/-- Whatever stage with `I` an action starts on, it leaves one with `I` behind. -/
def Keeps (I : Stage T C W → Prop) (act : Action T C W α) : Prop := ∀ s, I s → I (after act s)

theorem keeps_ok {act : Action T C W α} (h : Keeps I act) {s s' : Stage T C W} {a : α} (hs : I s)
    (hrun : act s = .ok a s') : I s' := by
  have hkept := h s hs
  rw [after, hrun] at hkept
  exact hkept

/-- An action that comes to the same as one that keeps `I` leaves `I` behind. -/
theorem keeps_of_eq {act act' : Action T C W α} (h : Keeps I act') {s : Stage T C W}
    (heq : act s = act' s) (hs : I s) : I (after act s) := by
  unfold after
  rw [heq]
  exact h s hs

namespace Keeps

theorem pure (a : α) : Keeps I (Pure.pure a : Action T C W α) := fun _ h => h

theorem throw (fault : StageFault T) : Keeps I (MonadExcept.throw fault : Action T C W α) :=
  fun _ h => h

theorem ofArith (value : Except ArithFault α) : Keeps I (Stage.ofArith value : Action T C W α) := by
  cases value with
  | error fault => exact .throw _
  | ok a => exact .pure a

theorem get : Keeps I (MonadState.get : Action T C W (Stage T C W)) := fun _ h => h

theorem change {f : Stage T C W → Stage T C W} (h : ∀ s, I s → I (f s)) :
    Keeps I (modify f : Action T C W Unit) := h

theorem bind {act : Action T C W α} {next : α → Action T C W β} (hact : Keeps I act)
    (hnext : ∀ a, Keeps I (next a)) : Keeps I (act >>= next) :=
  Leads.bind hact hnext fun _ h => h

theorem attempt {act : Action T C W Unit} (h : Keeps I act) : Keeps I (Stage.attempt act) := by
  intro s hs
  have hact := h s hs
  unfold after at hact ⊢
  unfold Stage.attempt
  cases hrun : act s with
  | ok _ s' => rw [hrun] at hact; exact hact
  | error fault s' => rw [hrun] at hact; exact hact

theorem tell {react : React T C W} {notice : Notice T} (h : ∀ c, Keeps I (react c notice))
    (c : Option C) : Keeps I (Stage.tell react c notice) := by
  cases c with
  | none => exact .pure ()
  | some c => exact h c

theorem tellAll {react : React T C W} {notice : Notice T} (h : ∀ c, Keeps I (react c notice))
    (cs : List C) : Keeps I (Stage.tellAll react notice cs) := by
  induction cs with
  | nil => exact .pure ()
  | cons c rest ih => exact (h c).bind fun _ => ih

end Keeps

/-- Whatever stage with `I` an action starts on, it goes through and leaves one with `I` behind. -/
def Goes (I : Stage T C W → Prop) (act : Action T C W α) : Prop :=
  ∀ s, I s → ∃ a s', act s = .ok a s' ∧ I s'

namespace Goes

theorem pure (a : α) : Goes I (Pure.pure a : Action T C W α) := fun s h => ⟨a, s, rfl, h⟩

theorem get : Goes I (MonadState.get : Action T C W (Stage T C W)) := fun s h => ⟨s, s, rfl, h⟩

theorem change {f : Stage T C W → Stage T C W} (h : ∀ s, I s → I (f s)) :
    Goes I (modify f : Action T C W Unit) := fun s hs => ⟨(), f s, rfl, h s hs⟩

theorem bind {act : Action T C W α} {next : α → Action T C W β} (hact : Goes I act)
    (hnext : ∀ a, Goes I (next a)) : Goes I (act >>= next) := by
  intro s hs
  obtain ⟨a, s₁, hrun, hs₁⟩ := hact s hs
  obtain ⟨b, s₂, hrun₂, hs₂⟩ := hnext a s₁ hs₁
  exact ⟨b, s₂, (bind_ok hrun _).trans hrun₂, hs₂⟩

/-- What follows may look at the stage it starts on. -/
theorem get_bind {next : Stage T C W → Action T C W β}
    (h : ∀ s, I s → ∃ b s', next s s = .ok b s' ∧ I s') : Goes I (MonadState.get >>= next) := h

/-- What is forgotten to have failed has gone through. -/
theorem attempt {act : Action T C W Unit} (h : Keeps I act) : Goes I (Stage.attempt act) := by
  intro s hs
  have hact := h s hs
  unfold after at hact
  unfold Stage.attempt
  cases hrun : act s with
  | ok _ s' => rw [hrun] at hact; exact ⟨(), s', rfl, hact⟩
  | error fault s' => rw [hrun] at hact; exact ⟨(), s', rfl, hact⟩

theorem tell {react : React T C W} {notice : Notice T} (h : ∀ c, Goes I (react c notice))
    (c : Option C) : Goes I (Stage.tell react c notice) := by
  cases c with
  | none => exact .pure ()
  | some c => exact h c

theorem tellAll {react : React T C W} {notice : Notice T} (h : ∀ c, Goes I (react c notice))
    (cs : List C) : Goes I (Stage.tellAll react notice cs) := by
  induction cs with
  | nil => exact .pure ()
  | cons c rest ih => exact (h c).bind fun _ => ih

/-- A frame can be requested unless the source is stalled. -/
theorem request [TimeScalar T] (hsource : ∀ s, I s → s.source ≠ .stalled)
    (hkeep : ∀ s source, source ≠ .stalled → I s → I { s with source }) (task : FrameTask C) :
    Goes I (Stage.request task) := by
  refine .get_bind fun s hs => ?_
  cases heq : s.source with
  | manual now queue => exact ⟨_, _, rfl, hkeep s _ nofun hs⟩
  | paced now interval queue => exact ⟨_, _, rfl, hkeep s _ nofun hs⟩
  | stalled => exact absurd heq (hsource s hs)

/-- Taking a request back does not stall the source. -/
theorem stop (hsource : ∀ s, I s → s.source ≠ .stalled)
    (hkeep : ∀ s source, source ≠ .stalled → I s → I { s with source }) {group : String}
    (hclock : ∀ s f, I s → I (s.modifyTimeline group f)) : Goes I (Stage.stop group) := by
  refine .bind .get fun s => ?_
  split
  · exact .pure ()
  · rename_i tl _
    refine .bind ?_ fun _ => .change fun s => hclock s _
    cases tl.handle with
    | none => exact .pure ()
    | some handle =>
        refine .change fun s hs => hkeep s _ ?_ hs
        have hrequests := hsource s hs
        cases heq : s.source with
        | manual now queue => nofun
        | paced now interval queue => nofun
        | stalled => exact absurd heq hrequests

theorem start [TimeScalar T] (hsource : ∀ s, I s → s.source ≠ .stalled)
    (hkeep : ∀ s source, source ≠ .stalled → I s → I { s with source }) {group : String}
    (hclock : ∀ s f, I s → I (s.modifyTimeline group f)) : Goes I (Stage.start group) := by
  refine .bind .get fun s => ?_
  split
  · exact .pure ()
  · split
    · exact .pure ()
    · refine .bind (.change fun s => hclock s _) fun _ => ?_
      exact .bind (.request hsource hkeep _) fun _ => .change fun s => hclock s _

/-- What follows an action that goes through is led on from there. -/
theorem leads {J : Stage T C W → Prop} {act : Action T C W α} {next : α → Action T C W β}
    (hact : Goes I act) (hnext : ∀ a, Leads I J (next a)) : Leads I J (act >>= next) := by
  intro s hs
  obtain ⟨a, s', hrun, hs'⟩ := hact s hs
  rw [after, bind_ok hrun]
  exact hnext a s' hs'

theorem keeps {act : Action T C W α} (h : Goes I act) : Keeps I act := by
  intro s hs
  obtain ⟨a, s', hrun, hs'⟩ := h s hs
  rw [after, hrun]
  exact hs'

end Goes

/-! ## Histories -/

section History

variable {E : Type}

/-- What happened on a stage whose outside world keeps a history, the latest first. -/
def history (s : Stage T C (W × List E)) : List E := s.outside.2

def recorded (s : Stage T C (W × List E)) (event : E) : Stage T C (W × List E) :=
  { s with outside := (s.outside.1, event :: s.outside.2) }

/-- Adds to the history. -/
def record (event : E) : Action T C (W × List E) Unit := modify (·.recorded event)

end History

end Cuesheet.Stage
