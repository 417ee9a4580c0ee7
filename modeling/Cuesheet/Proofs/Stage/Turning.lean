import Cuesheet.Proofs.Player.Turns
import Cuesheet.Proofs.Stage.Keeping
import Cuesheet.Proofs.Time.Exact
import Cuesheet.Stage.Playing

/-!
# What a tick does on the stage

With callbacks that leave alone what a player plays and remembers, a tick is what its turns say:
each is remembered and then told, one after the other (`handleTick_eq`). If nobody fails, the
player remembers in the end what it does after all of them (`handleTick_recalls`).
-/

namespace Cuesheet.Stage

variable {T C W : Type} {react : React T C W} {key : Nat} {c : Composition T} {m : Memory}
  {s s' : Stage T C W} {p : Player T C}

/-- A player plays a composition and has a memory. -/
def Recalls (key : Nat) (c : Composition T) (m : Memory) (s : Stage T C W) : Prop :=
  ∃ p, s.players[key]? = some p ∧ p.composition = c ∧ p.memory = m

/-- Callbacks leave what a player plays and remembers alone. -/
def Aloof (react : React T C W) (key : Nat) : Prop :=
  ∀ callback notice c m, Keeps (Recalls key c m) (react callback notice)

/-- What a player plays and remembers is as it was. -/
def Undisturbed (key : Nat) (s s' : Stage T C W) : Prop :=
  ∀ c m, Recalls key c m s → Recalls key c m s'

theorem recalls_of_players (h : s.players[key]? = some p) :
    Recalls key p.composition p.memory s := ⟨p, h, rfl, rfl⟩

/-! ## Players by key -/

theorem withPlayer_some (h : s.players[key]? = some p) (act : Player T C → Action T C W Unit) :
    withPlayer key act s = act p s := by
  rw [withPlayer, get_bind, h]

theorem withPlayer_none (h : s.players[key]? = none) (act : Player T C → Action T C W Unit) :
    withPlayer key act s = .ok () s := by
  rw [withPlayer, get_bind, h]
  rfl

theorem players_modifyPlayer (s : Stage T C W) (key : Nat) (f : Player T C → Player T C) :
    (s.modifyPlayer key f).players[key]? = (s.players[key]?).map f := by
  unfold modifyPlayer
  rw [List.getElem?_modify_eq]
  rfl

theorem modifyPlayer_congr {f g : Player T C → Player T C} (h : s.players[key]? = some p)
    (hfg : f p = g p) : s.modifyPlayer key f = s.modifyPlayer key g := by
  unfold modifyPlayer
  rw [modify_congr_of_getElem? h hfg]

theorem modifyPlayer_id {f : Player T C → Player T C} (h : s.players[key]? = some p)
    (hf : f p = p) : s.modifyPlayer key f = s := by
  rw [modifyPlayer_congr (g := id) h hf]
  unfold modifyPlayer
  rw [List.modify_id]

theorem recalls_withMemory (h : Recalls key c m s) (m' : Memory) :
    Recalls key c m' (s.modifyPlayer key fun p => p.withMemory m') := by
  obtain ⟨p, hp, hc, -⟩ := h
  refine ⟨p.withMemory m', ?_, hc, rfl⟩
  rw [players_modifyPlayer, hp]
  rfl

/-- Remembering what is remembered changes nothing. -/
theorem withMemory_eq (h : Recalls key c m s) :
    s.modifyPlayer key (fun p => p.withMemory m) = s := by
  obtain ⟨p, hp, -, rfl⟩ := h
  exact modifyPlayer_id hp rfl

/-! ## Events -/

variable {time : T} {frame : Int}

theorem Keeps.withPlayer {I : Stage T C W → Prop} {act : Player T C → Action T C W Unit}
    (h : ∀ p, Keeps I (act p)) : Keeps I (Stage.withPlayer key act) := by
  refine Keeps.get.bind fun s => ?_
  split
  · exact .pure ()
  · exact h _

theorem keeps_invokeEach (haloof : Aloof react key) (hook : C) (event : Option (PlayerEvent T))
    (scope : Scope) (target : String) (codes : List String) :
    Keeps (Recalls key c m) (invokeEach react key hook event scope target codes) := by
  induction codes with
  | nil => exact .pure ()
  | cons code rest ih =>
      refine .bind ?_ fun _ => ih
      exact .withPlayer fun p => .attempt (haloof hook _ c m)

theorem keeps_runHandlers (haloof : Aloof react key) (event : PlayerEvent T) :
    Keeps (Recalls key c m) (runHandlers react key event) := by
  refine .withPlayer fun p => ?_
  split
  · exact .pure ()
  · refine .bind (keeps_invokeEach haloof _ _ _ _ _) fun _ => .withPlayer fun p => ?_
    dsimp only
    split
    · exact .throw _
    · exact keeps_invokeEach haloof _ _ _ _ _

theorem keeps_dispatch (haloof : Aloof react key) (event : PlayerEvent T) :
    Keeps (Recalls key c m) (dispatch react key event) :=
  .withPlayer fun _ => .bind (.tellAll (fun callback => haloof callback _ c m) _)
    fun _ => keeps_runHandlers haloof event

/-! ## Turns -/

/-- Remembers and tells some turns, one after the other. -/
def proceed (react : React T C W) (key : Nat) (time : T) (frame : Int) :
    List Turn → Action T C W Unit
  | [] => pure ()
  | turn :: rest => do
    updatePlayer key fun p => p.withMemory turn.memory
    dispatch react key ⟨turn.occurrence, time, frame⟩
    proceed react key time frame rest

theorem proceed_append (turns more : List Turn) :
    proceed react key time frame (turns ++ more) =
      (do proceed react key time frame turns; proceed react key time frame more) := by
  induction turns with
  | nil => rfl
  | cons turn rest ih =>
      rw [List.cons_append, proceed, proceed, ih, bind_assoc]
      congr 1
      funext _
      rw [bind_assoc]

theorem proceed_cons (turn : Turn) (rest : List Turn) (s : Stage T C W) :
    proceed react key time frame (turn :: rest) s =
        (do dispatch react key ⟨turn.occurrence, time, frame⟩
            proceed react key time frame rest)
          (s.modifyPlayer key fun p => p.withMemory turn.memory) := bind_ok rfl _

/-- After turns nobody fails at, the last one is remembered. -/
theorem proceed_recalls (haloof : Aloof react key) {turns : List Turn} (h : Recalls key c m s)
    (hrun : proceed react key time frame turns s = .ok () s') :
    Recalls key c (Turn.last m turns) s' := by
  induction turns generalizing m s with
  | nil => cases hrun; exact h
  | cons turn rest ih =>
      rw [proceed_cons] at hrun
      have hturn := recalls_withMemory h turn.memory
      have hkept := keeps_dispatch haloof ⟨turn.occurrence, time, frame⟩ _ hturn
      cases hdispatch : dispatch react key ⟨turn.occurrence, time, frame⟩
          (s.modifyPlayer key fun p => p.withMemory turn.memory) with
      | error fault s₁ =>
          rw [bind_error hdispatch] at hrun
          cases hrun
      | ok _ s₁ =>
          rw [bind_ok hdispatch] at hrun
          rw [after, hdispatch] at hkept
          exact ih hkept hrun

/-- While turns are remembered and told, the memory has what all of them lead to has. -/
theorem keeps_proceed (haloof : Aloof react key) {I : Memory → Prop} {turns : List Turn}
    (h : ∀ turn ∈ turns, I turn.memory) :
    Keeps (fun s => ∃ m, Recalls key c m s ∧ I m) (proceed react key time frame turns) := by
  induction turns with
  | nil => exact .pure ()
  | cons turn rest ih =>
      obtain ⟨hturn, hrest⟩ := List.forall_mem_cons.mp h
      refine .bind (.change ?_) fun _ => .bind ?_ fun _ => ih hrest
      · rintro s ⟨m, hs, -⟩
        exact ⟨turn.memory, recalls_withMemory hs _, hturn⟩
      · rintro s ⟨m, hs, hm⟩
        exact ⟨m, keeps_dispatch haloof _ s hs, hm⟩

/-- A turn is taken by an action that changes what a player remembers and then tells it. -/
theorem proceed_turn (haloof : Aloof react key) (hp : s.players[key]? = some p) {turn : Turn}
    {rest : List Turn} {first next : Action T C W Unit} {f : Player T C → Player T C}
    (hf : f p = p.withMemory turn.memory)
    (hfirst : first s =
      (do updatePlayer key f; dispatch react key ⟨turn.occurrence, time, frame⟩) s)
    (hnext : ∀ s₁, Recalls key p.composition turn.memory s₁ →
      next s₁ = proceed react key time frame rest s₁) :
    (do first; next) s = proceed react key time frame (turn :: rest) s := by
  rw [proceed_cons]
  refine bind_congr_ok ?_ fun _ s₁ hrun => hnext s₁ ?_
  · refine hfirst.trans ((bind_ok rfl _).trans ?_)
    exact congrArg (dispatch react key _) (modifyPlayer_congr hp hf)
  · exact keeps_ok (keeps_dispatch haloof _) (recalls_withMemory (recalls_of_players hp) _) hrun

/-! ## Ticks -/

variable [TimeScalar T]

theorem turnComponents_eq (haloof : Aloof react key)
    (cs : List (ComponentKey × TimedComponent T)) (h : Recalls key c m s) :
    turnComponents react key time frame cs s =
      proceed react key time frame (m.componentTurns time cs) s := by
  induction cs generalizing m s with
  | nil => rfl
  | cons entry rest ih =>
      obtain ⟨place, component⟩ := entry
      have hrecalls := h
      obtain ⟨p, hp, rfl, rfl⟩ := h
      rw [turnComponents, Memory.componentTurns]
      by_cases hturn : (component.isVisible time != p.memory.shows place) = true
      · rw [if_pos hturn]
        refine proceed_turn haloof hp ?_
          ((withPlayer_some hp _).trans (congrFun (if_pos hturn) s)) fun s₁ h => ih h
        rfl
      · rw [if_neg hturn]
        refine (bind_ok (a := ()) ?_ _).trans (ih hrecalls)
        exact (withPlayer_some hp _).trans (congrFun (if_neg hturn) s)

theorem turnCues_eq (haloof : Aloof react key) (cues : List (TimedCue T))
    (h : Recalls key c m s) :
    turnCues react key time frame cues s =
      proceed react key time frame (m.cueTurns time cues) s := by
  induction cues generalizing m s with
  | nil => rfl
  | cons cue rest ih =>
      have hrecalls := h
      obtain ⟨p, hp, rfl, rfl⟩ := h
      rw [turnCues, Memory.cueTurns]
      by_cases hstart : (cue.isActive time && !p.memory.cues.contains cue.id) = true
      · rw [if_pos hstart]
        refine proceed_turn haloof hp ?_
          ((withPlayer_some hp _).trans (congrFun (if_pos hstart) s)) fun s₁ h => ih h
        rfl
      · rw [if_neg hstart]
        by_cases hend : (p.memory.cues.contains cue.id && !cue.isActive time) = true
        · rw [if_pos hend]
          refine proceed_turn haloof hp ?_ ((withPlayer_some hp _).trans
            (congrFun ((if_neg hstart).trans (if_pos hend)) s)) fun s₁ h => ih h
          rfl
        · rw [if_neg hend]
          refine (bind_ok (a := ()) ?_ _).trans (ih hrecalls)
          exact (withPlayer_some hp _).trans (congrFun ((if_neg hstart).trans (if_neg hend)) s)

omit [TimeScalar T] in
theorem proceed_remembered (turn : Turn) (h : Recalls key c turn.memory s) (rest : List Turn) :
    proceed react key time frame (turn :: rest) s =
      (do dispatch react key ⟨turn.occurrence, time, frame⟩
          proceed react key time frame rest) s := by
  rw [proceed_cons, withMemory_eq h]

omit [TimeScalar T] in
theorem dispatchIf_eq (h : Recalls key c m s) (id : Option String)
    (occurrence : String → Occurrence) :
    dispatchIf react key time frame id occurrence s =
      proceed react key time frame (id.toList.map fun id => ⟨m, occurrence id⟩) s := by
  cases id with
  | none => rfl
  | some id =>
      refine Eq.trans ?_ (proceed_remembered ⟨m, occurrence id⟩ h []).symm
      exact congrFun (bind_pure_unit (x := dispatch react key ⟨occurrence id, time, frame⟩)).symm s

omit [TimeScalar T] in
theorem keeps_dispatchIf (haloof : Aloof react key) (id : Option String)
    (occurrence : String → Occurrence) :
    Keeps (Recalls key c m) (dispatchIf react key time frame id occurrence) := by
  cases id with
  | none => exact .pure ()
  | some id => exact keeps_dispatch haloof _

omit [TimeScalar T] in
/-- The first of some turns moves the memory, if all move it to the same. -/
theorem proceed_moved {turns : List Turn} (h : Recalls key c m (s.modifyPlayer key fun p =>
    p.withMemory m)) (hsome : turns ≠ []) (hall : ∀ turn ∈ turns, turn.memory = m) :
    proceed react key time frame turns s =
      proceed react key time frame turns (s.modifyPlayer key fun p => p.withMemory m) := by
  cases turns with
  | nil => exact absurd rfl hsome
  | cons turn rest =>
      obtain rfl := hall turn List.mem_cons_self
      rw [proceed_cons, proceed_remembered turn h]

omit [TimeScalar T] in
theorem turnScene_eq (haloof : Aloof react key) (active : Option String)
    (h : Recalls key c m s) :
    turnScene react key time frame active s =
      proceed react key time frame (m.sceneTurns active) s := by
  have hrecalls := h
  obtain ⟨p, hp, rfl, rfl⟩ := h
  refine (withPlayer_some hp _).trans ?_
  unfold Memory.sceneTurns
  by_cases hturn : (active != p.memory.scene) = true
  · have hmoved := recalls_withMemory hrecalls { p.memory with scene := active }
    rw [if_pos hturn, proceed_moved hmoved]
    · rw [List.map_append, proceed_append, List.map_map, List.map_map]
      refine (congrFun (if_pos hturn) s).trans ((bind_ok rfl _).trans ?_)
      have hsame : (s.modifyPlayer key fun q => { q with activeScene := active }) =
          s.modifyPlayer key fun q => q.withMemory { p.memory with scene := active } :=
        modifyPlayer_congr hp rfl
      refine bind_congr_ok ((congrArg _ hsame).trans (dispatchIf_eq hmoved _ _)) fun _ s₁ hrun =>
        dispatchIf_eq (c := p.composition) ?_ _ _
      exact keeps_ok (keeps_dispatchIf haloof _ _) hmoved ((dispatchIf_eq hmoved _ _).trans hrun)
    · intro hnil
      have hnone : p.memory.scene = none ∧ active = none := by simpa using hnil
      rw [hnone.1, hnone.2] at hturn
      cases hturn
    · intro turn hmem
      obtain ⟨occurrence, -, rfl⟩ := List.mem_map.mp hmem
      rfl
  · rw [if_neg hturn]
    exact congrFun (if_neg hturn) s

/-- The frames per second that a player counts in. -/
def playerFps (s : Stage T C W) (p : Player T C) : Number :=
  if p.mounted then ((s.timeline? p.group).map Timeline.fps).getD p.composition.fps
  else p.composition.fps

omit [TimeScalar T] in
theorem fpsOf_eq (s : Stage T C W) (p : Player T C) : fpsOf p s = .ok (s.playerFps p) s := by
  unfold fpsOf playerFps
  split
  · refine (bind_ok rfl _).trans ?_
    cases s.timeline? p.group <;> rfl
  · rfl

/-- What a player tells at a tick, in order. -/
def transitions (s : Stage T C W) (key : Nat) (time : T) : List Occurrence :=
  match s.players[key]? with
  | none => []
  | some p => (p.composition.turns time (s.playerFps p) p.memory).map Turn.occurrence

/-- The last thing at a tick: whoever wants to know is told the time. -/
def tellTime (react : React T C W) (key : Nat) (time : T) : Action T C W Unit :=
  withPlayer key fun p =>
    tell react p.options.onTimeUpdate (.timeUpdate time (toldDuration p.duration))

theorem keeps_tellTime (haloof : Aloof react key) :
    Keeps (Recalls key c m) (tellTime react key time) :=
  .withPlayer fun _ => .tell (fun callback => haloof callback _ _ _) _

/-- What a tick does once the components have turned. -/
theorem handleTick_rest_eq (haloof : Aloof react key) (frame : Int) (fps : Number)
    (h : Recalls key c (c.looked time m) s) :
    (do
      dispatch react key ⟨.tick fps, time, frame⟩
      withPlayer key fun p => turnCues react key time frame p.composition.timedCues
      turnScene react key time frame ((c.activeScene? time).map Scene.id)
      tellTime react key time) s =
    (do
      proceed react key time frame (⟨c.looked time m, .tick fps⟩ ::
        ((c.looked time m).cueTurns time c.timedCues ++
          (c.cued time m).sceneTurns ((c.activeScene? time).map Scene.id)))
      tellTime react key time) s := by
  refine Eq.trans ?_ (bind_congr_ok (proceed_remembered _ h _) fun _ _ _ => rfl).symm
  rw [bind_assoc, proceed_append, bind_assoc]
  -- callbacks may have done anything else by now, so each part looks at the stage that is left
  refine bind_congr_ok rfl fun _ s₁ hrun => ?_
  have hlooked := keeps_ok (keeps_dispatch haloof _) h hrun
  obtain ⟨p, hp, hc, -⟩ := id hlooked
  have hcues : withPlayer key (fun p => turnCues react key time frame p.composition.timedCues) s₁ =
      proceed react key time frame ((c.looked time m).cueTurns time c.timedCues) s₁ := by
    rw [withPlayer_some hp, hc]
    exact turnCues_eq haloof _ hlooked
  refine bind_congr_ok hcues fun _ s₂ hrun => ?_
  have hcued : Recalls key c (c.cued time m) s₂ := proceed_recalls haloof hlooked hrun
  exact bind_congr_ok (turnScene_eq haloof _ hcued) fun _ _ _ => rfl

/-- A tick counts the frame, goes through its turns, and tells the time. -/
theorem handleTick_eq (haloof : Aloof react key) (hp : s.players[key]? = some p) (time : T) :
    handleTick react key time s =
      (do
        let frame ← ofArith (TimeScalar.frameAt time (s.playerFps p))
        proceed react key time frame (p.composition.turns time (s.playerFps p) p.memory)
        tellTime react key time) s := by
  refine (withPlayer_some hp _).trans ((bind_ok (fpsOf_eq s p) _).trans ?_)
  refine bind_congr_ok rfl fun frame s₁ hframe => ?_
  obtain ⟨-, rfl⟩ := ofArith_ok hframe
  have hrecalls := recalls_of_players hp
  have hlooked : ∀ s₂, proceed react key time frame
      (p.memory.componentTurns time (p.composition.placed time)) s₁ = .ok () s₂ →
        Recalls key p.composition (p.composition.looked time p.memory) s₂ :=
    fun s₂ hrun => proceed_recalls haloof hrecalls hrun
  rw [Composition.turns, proceed_append, bind_assoc]
  -- components turn first, those of the active scene if there is one
  cases hactive : p.composition.activeScene? time with
  | some scene =>
      have hplaced : p.composition.placed time = keyed scene.id 0 scene.timedComponents := by
        rw [Composition.placed, hactive]
      refine bind_congr_ok ?_ fun _ s₂ hrun => ?_
      · rw [hplaced]
        exact turnComponents_eq haloof _ hrecalls
      · have hrest := handleTick_rest_eq haloof frame (s₁.playerFps p) (hlooked s₂ hrun)
        rw [hactive] at hrest
        exact hrest
  | none =>
      have hplaced : p.composition.placed time = [] := by rw [Composition.placed, hactive]
      rw [hplaced] at hlooked ⊢
      have hrest := handleTick_rest_eq haloof frame (s₁.playerFps p) (hlooked s₁ rfl)
      rw [hactive] at hrest
      have hnothing : proceed react key time frame
          (p.memory.componentTurns (T := T) time []) s₁ = .ok () s₁ := rfl
      rw [bind_ok hnothing]
      exact hrest

/-- After a tick nobody fails at, a player remembers what it does after all turns. -/
theorem handleTick_recalls (haloof : Aloof react key) (h : Recalls key c m s)
    (hrun : handleTick react key time s = .ok () s') : Recalls key c (c.ticked time m) s' := by
  obtain ⟨p, hp, rfl, rfl⟩ := id h
  rw [handleTick_eq haloof hp] at hrun
  obtain ⟨frame, s₁, hframe, hrun⟩ := ok_of_bind hrun
  obtain ⟨-, rfl⟩ := ofArith_ok hframe
  obtain ⟨_, s₂, hproceed, htell⟩ := ok_of_bind hrun
  have hturned := proceed_recalls haloof h hproceed
  rw [Composition.last_turns] at hturned
  exact keeps_ok (keeps_tellTime haloof) hturned htell

/-- Also if somebody fails, a tick leaves a memory that has what all its turns lead to has. -/
theorem keeps_handleTick (haloof : Aloof react key) {I : Memory → Prop} (time : T)
    (h : ∀ m fps, I m → ∀ turn ∈ c.turns time fps m, I turn.memory) :
    Keeps (fun s => ∃ m, Recalls key c m s ∧ I m) (handleTick react key time) := by
  rintro s ⟨m, hs, hm⟩
  obtain ⟨p, hp, rfl, rfl⟩ := id hs
  refine keeps_of_eq (I := fun s => ∃ m, Recalls key p.composition m s ∧ I m)
    (.bind (.ofArith _) fun frame => .bind ?_ fun _ => ?_) (handleTick_eq haloof hp time)
    ⟨_, hs, hm⟩
  · exact keeps_proceed haloof (h _ _ hm)
  · rintro s ⟨m, hs, hm⟩
    exact ⟨m, keeps_tellTime haloof s hs, hm⟩

/-! ## A listener to everything -/

/-- The stage on which an occurrence has been written down. -/
def noted (s : Stage T C (List Occurrence)) (occurrence : Occurrence) :
    Stage T C (List Occurrence) :=
  { s with outside := s.outside ++ [occurrence] }

/-- Writes down what occurs. -/
def scribe : React T C (List Occurrence) := fun _ notice =>
  match notice with
  | .event event => modify fun s => s.noted event.occurrence
  | _ => pure ()

/-- A player has one listener to each kind of event, and no handlers. -/
structure Heard (p : Player T C) : Prop where
  handlerHook : p.options.handlerHook = none
  listener : ∀ kind, ∃ callback, p.listenersTo kind = [callback]

section Heard

variable {s s' : Stage T C (List Occurrence)}

omit [TimeScalar T] in
theorem dispatch_heard (hp : s.players[key]? = some p) (hheard : Heard p) (event : PlayerEvent T) :
    dispatch scribe key event s = .ok () (s.noted event.occurrence) := by
  obtain ⟨callback, hlistener⟩ := hheard.listener event.kind
  have htold : tellAll scribe (.event event) [callback] s = .ok () (s.noted event.occurrence) := rfl
  have hp' : (s.noted event.occurrence).players[key]? = some p := hp
  refine (withPlayer_some hp _).trans ?_
  rw [hlistener, bind_ok htold]
  refine (withPlayer_some hp' _).trans ?_
  rw [hheard.handlerHook]
  rfl

omit [TimeScalar T] in
theorem proceed_heard {turns : List Turn} (hp : s.players[key]? = some p) (hheard : Heard p)
    (hrun : proceed scribe key time frame turns s = .ok () s') :
    s'.outside = s.outside ++ turns.map Turn.occurrence := by
  induction turns generalizing s p with
  | nil =>
      cases hrun
      exact (List.append_nil _).symm
  | cons turn rest ih =>
      have hmoved : (s.modifyPlayer key fun p => p.withMemory turn.memory).players[key]? =
          some (p.withMemory turn.memory) := by
        rw [players_modifyPlayer, hp]
        rfl
      have hheard' : Heard (p.withMemory turn.memory) := ⟨hheard.handlerHook, hheard.listener⟩
      rw [proceed_cons, bind_ok (dispatch_heard hmoved hheard' _)] at hrun
      have hnoted : ∀ occurrence,
          ((s.modifyPlayer key fun p => p.withMemory turn.memory).noted occurrence).players[key]? =
            some (p.withMemory turn.memory) := fun _ => hmoved
      rw [ih (hnoted _) hheard' hrun, List.map_cons, List.append_cons]
      rfl

omit [TimeScalar T] in
theorem scribe_aloof (key : Nat) : Aloof (scribe : React T C (List Occurrence)) key := by
  intro callback notice c m
  cases notice with
  | event event => exact .change fun _ h => h
  | _ => exact .pure ()

theorem tellTime_scribe (s : Stage T C (List Occurrence)) :
    tellTime scribe key time s = .ok () s := by
  unfold tellTime
  cases hp : s.players[key]? with
  | none => exact withPlayer_none hp _
  | some p =>
      rw [withPlayer_some hp]
      cases p.options.onTimeUpdate <;> rfl

/-- The transitions of a tick are what somebody who listens to everything hears at it. -/
theorem handleTick_heard (hp : s.players[key]? = some p) (hheard : Heard p)
    (hrun : handleTick scribe key time s = .ok () s') :
    s'.outside = s.outside ++ s.transitions key time := by
  rw [handleTick_eq (scribe_aloof key) hp] at hrun
  obtain ⟨frame, s₁, hframe, hrun⟩ := ok_of_bind hrun
  obtain ⟨-, rfl⟩ := ofArith_ok hframe
  obtain ⟨_, s₂, hproceed, htell⟩ := ok_of_bind hrun
  rw [tellTime_scribe] at htell
  cases htell
  unfold transitions
  rw [hp]
  exact proceed_heard hp hheard hproceed

end Heard

/-! ## A player that nobody listens to -/

/-- Callbacks that do nothing. -/
def still : React Rat Unit Unit := fun _ _ => pure ()

theorem still_aloof (key : Nat) : Aloof still key := fun _ _ _ _ => .pure ()

/-- A player on a stage of its own. -/
def alone (c : Composition Rat) : Stage Rat Unit Unit where
  source := .manual 0 {}
  players := [{ composition := c, options := {}, group := "alone" }]
  outside := ()

/-- A box in view for some time. -/
def box (id : String) (start stop : Rat) : Component Rat where
  id := id
  type := "box"
  props := []
  start := some start
  stop := some stop
  visible := none
  z := none
  styles := none
  markup := none
  text := ""
  handlers := []

/-- A scene for some time, and what is in it. -/
def take (id : String) (start stop : Rat) (components : List (Component Rat)) : Scene Rat where
  id := id
  title := ""
  start := start
  stop := some stop
  items := []
  layers := []
  components := components
  styles := none
  markup := none
  handlers := []

def film (scenes : List (Scene Rat)) : Composition Rat where
  id := "film"
  title := none
  fps := .int 30
  width := .int 1
  height := .int 1
  scenes := scenes
  duration := none
  poster := none
  voiceover := none
  handlers := []
  scripts := []

end Cuesheet.Stage
