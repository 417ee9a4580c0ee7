import Cuesheet.Proofs.Stage.Ticks
import Cuesheet.Proofs.Stage.Turning

/-!
# What is kept while subscribers are told the time

A player that is told the time remembers what is active and calls others. What callbacks keep, and
what says nothing about the memory of players, is therefore kept by whoever is told the time, be it
a player or a callback (`Sheltered.hear`), and by all of them one after the other.
-/

namespace Cuesheet.Stage

variable {T C W : Type} {react : React T C W} {I : Stage T C W → Prop}

/-! ## Handlers -/

theorem Keeps.invokeEach {hook : C}
    (h : ∀ invocation, Keeps I (react hook (.handler invocation))) (key : Nat)
    (event : Option (PlayerEvent T)) (scope : Scope) (target : String) (codes : List String) :
    Keeps I (Stage.invokeEach react key hook event scope target codes) := by
  induction codes with
  | nil => exact .pure ()
  | cons code rest ih =>
      refine .bind ?_ fun _ => ih
      exact .withPlayer fun p => .attempt (h _)

theorem Keeps.runHandlers (h : ∀ hook invocation, Keeps I (react hook (.handler invocation)))
    (key : Nat) (event : PlayerEvent T) : Keeps I (Stage.runHandlers react key event) := by
  refine .withPlayer fun p => ?_
  split
  · exact .pure ()
  · refine .bind (.invokeEach (h _) key _ _ _ _) fun _ => .withPlayer fun p => ?_
    dsimp only
    split
    · exact .throw _
    · exact .invokeEach (h _) key _ _ _ _

theorem Goes.withPlayer {key : Nat} {act : Player T C → Action T C W Unit}
    (hact : ∀ p, Goes I (act p)) : Goes I (withPlayer key act) := by
  refine .bind .get fun s => ?_
  split
  · exact .pure ()
  · exact hact _

/-- Scripts go through, since what goes wrong in one is forgotten. -/
theorem Goes.runScripts (h : ∀ hook invocation, Keeps I (react hook (.handler invocation)))
    (key : Nat) : Goes I (Stage.runScripts react key) := by
  refine .withPlayer fun p => ?_
  split
  · exact .pure ()
  · rename_i hook _
    induction p.composition.scripts with
    | nil => exact .pure ()
    | cons code rest ih =>
        refine .bind (.withPlayer fun p => .withPlayer fun p => ?_) fun _ => ih
        exact .attempt (h hook _)

/-! ## Subscribers -/

/-- What each subscriber keeps, all of them keep that are told one after the other. -/
theorem Keeps.hearEach [TimeScalar T]
    (h : ∀ subscriber time, Keeps I (Stage.hear react subscriber time)) (time : T)
    (subscribers : List (Subscriber C)) :
    Keeps I (tick.hearEach (Stage.hear react) time subscribers) := by
  induction subscribers with
  | nil => exact .pure ()
  | cons subscriber rest ih => exact .bind (h subscriber time) fun _ => ih

/-! ## Ticks of players -/

/-- Callbacks keep it, and so does a player that only changes what it remembers. -/
structure Sheltered (react : React T C W) (I : Stage T C W → Prop) : Prop where
  called : ∀ c notice, Keeps I (react c notice)
  remembered : ∀ key (f : Player T C → Player T C),
    (∀ p, (f p).mounted = p.mounted ∧ (f p).group = p.group) →
      ∀ s, I s → I (s.modifyPlayer key f)

namespace Sheltered

variable (h : Sheltered react I)
include h

theorem dispatch (key : Nat) (event : PlayerEvent T) : Keeps I (Stage.dispatch react key event) :=
  .withPlayer fun _ => .bind (.tellAll (fun callback => h.called callback _) _)
    fun _ => .runHandlers (fun hook _ => h.called hook _) key event

/-- A player remembers something and tells it. -/
theorem turn (key : Nat) {f : Player T C → Player T C}
    (hf : ∀ p, (f p).mounted = p.mounted ∧ (f p).group = p.group) (event : PlayerEvent T) :
    Keeps I (do updatePlayer key f; Stage.dispatch react key event) :=
  .bind (.change (h.remembered key f hf)) fun _ => h.dispatch key event

theorem dispatchIf (key : Nat) (time : T) (frame : Int) (id : Option String)
    (occurrence : String → Occurrence) :
    Keeps I (Stage.dispatchIf react key time frame id occurrence) := by
  cases id with
  | none => exact .pure ()
  | some id => exact h.dispatch key _

theorem turnScene (key : Nat) (time : T) (frame : Int) (active : Option String) :
    Keeps I (Stage.turnScene react key time frame active) := by
  refine .withPlayer fun p => ?_
  split
  · refine .bind (.change (h.remembered key _ fun p => ⟨rfl, rfl⟩)) fun _ => ?_
    exact .bind (h.dispatchIf key _ _ _ _) fun _ => h.dispatchIf key _ _ _ _
  · exact .pure ()

variable [TimeScalar T]

theorem turnComponents (key : Nat) (time : T) (frame : Int)
    (cs : List (ComponentKey × TimedComponent T)) :
    Keeps I (Stage.turnComponents react key time frame cs) := by
  induction cs with
  | nil => exact .pure ()
  | cons entry rest ih =>
      refine .bind (.withPlayer fun p => ?_) fun _ => ih
      dsimp only
      split
      · refine h.turn key ?_ _
        exact fun p => ⟨rfl, rfl⟩
      · exact .pure ()

theorem turnCues (key : Nat) (time : T) (frame : Int) (cues : List (TimedCue T)) :
    Keeps I (Stage.turnCues react key time frame cues) := by
  induction cues with
  | nil => exact .pure ()
  | cons cue rest ih =>
      refine .bind (.withPlayer fun p => ?_) fun _ => ih
      dsimp only
      split
      · refine h.turn key ?_ _
        exact fun p => ⟨rfl, rfl⟩
      · split
        · refine h.turn key ?_ _
          exact fun p => ⟨rfl, rfl⟩
        · exact .pure ()

theorem handleTick (key : Nat) (time : T) : Keeps I (Stage.handleTick react key time) := by
  refine .withPlayer fun p => ?_
  have hfps : Keeps I (fpsOf p : Action T C W Number) := by
    unfold fpsOf
    split
    · refine .bind .get fun s => ?_
      split <;> exact .pure _
    · exact .pure _
  refine .bind hfps fun fps => .bind (.ofArith _) fun frame => ?_
  have hrest (active : Option String) : Keeps I (do
      Stage.dispatch react key ⟨.tick fps, time, frame⟩
      Stage.withPlayer key fun p => Stage.turnCues react key time frame p.composition.timedCues
      Stage.turnScene react key time frame active
      Stage.withPlayer key fun p => tell react p.options.onTimeUpdate
        (.timeUpdate time (toldDuration p.duration)) : Action T C W Unit) := by
    refine .bind (h.dispatch key _) fun _ => .bind (.withPlayer fun p => ?_) fun _ => ?_
    · exact h.turnCues key _ _ _
    · refine .bind (h.turnScene key _ _ _) fun _ => .withPlayer fun p => ?_
      exact .tell (fun callback => h.called callback _) _
  dsimp only
  split
  · exact .bind (h.turnComponents key _ _ _) fun _ => hrest _
  · exact hrest _

theorem hear (subscriber : Subscriber C) (time : T) :
    Keeps I (Stage.hear react subscriber time) := by
  cases subscriber with
  | player key => exact h.handleTick key time
  | call c => exact h.called c _

theorem hearEach (time : T) (subscribers : List (Subscriber C)) :
    Keeps I (tick.hearEach (Stage.hear react) time subscribers) :=
  .hearEach h.hear time subscribers

end Sheltered

/-! ## A tick and its renewal -/

theorem after_ensuring (act last : Action T C W Unit) (s : Stage T C W) :
    after (ensuring act last) s = after last (after act s) := by
  simp only [after, ensuring]
  cases act s with
  | ok _ s' => rfl
  | error fault s' =>
      simp only [left]
      cases last s' <;> rfl

end Cuesheet.Stage
