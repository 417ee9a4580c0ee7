import Cuesheet.Proofs.Stage.Edges
import Cuesheet.Proofs.Stage.Rebinding

/-!
# What players remember is current

Ticks and rebinds leave every player with a memory that fits the composition it plays now, and no
tick looks for a scene or a cue that is not there (`memories_current`). Callbacks may do anything
meanwhile, also tick a player that is in a tick, but not give it another composition then
(`Conduct`). That composition is what a tick holds on to (`Fitting`). So a tick fails only where a
callback does or its frame cannot be counted (`errs_handleTick`).
-/

namespace Cuesheet.Stage

variable {T C W α β : Type} {s s' was : Stage T C W}

/-! ## Fitting stages -/

/-- What a key plays, if it stands for a player. -/
def playing? (s : Stage T C W) (key : Nat) : Option (Composition T) :=
  (s.players[key]?).map Player.composition

/-- Players remember only what is in the composition that they play, and those that are busy play
what they did before. -/
structure Fitting (busy : List Nat) (was s : Stage T C W) : Prop where
  fits : ∀ (key : Nat) (p : Player T C), s.players[key]? = some p → p.memory.Fits p.composition
  plays : ∀ key ∈ busy, ∀ c, was.playing? key = some c → s.playing? key = some c

/-- Players that are there play and remember what they did, and new ones remember nothing. -/
structure Unmoved (s s' : Stage T C W) : Prop where
  stays : ∀ key, Undisturbed key s s'
  fresh : ∀ key c m, Recalls key c m s' → Recalls key c m s ∨ m = {}

namespace Fitting

variable {busy : List Nat} {key : Nat} {c : Composition T}

theorem refl (h : Fitting busy was s) (busy' : List Nat) : Fitting busy' s s :=
  ⟨h.fits, fun _ _ _ hc => hc⟩

theorem of_cons (h : Fitting busy was s) (htick : Fitting (key :: busy) s s') :
    Fitting busy was s' :=
  ⟨htick.fits, fun key hkey c hc =>
    htick.plays key (List.mem_cons_of_mem _ hkey) c (h.plays key hkey c hc)⟩

theorem unmoved (h : Fitting busy was s) (hs : Unmoved s s') : Fitting busy was s' := by
  refine ⟨fun key p hp => ?_, fun key hkey c hc => ?_⟩
  · rcases hs.fresh key _ _ (recalls_of_players hp) with ⟨q, hq, hcomposition, hmemory⟩ | hfresh
    · rw [← hcomposition, ← hmemory]
      exact h.fits key q hq
    · rw [hfresh]
      exact Memory.fits_fresh _
  · obtain ⟨p, hp, rfl⟩ := Option.map_eq_some_iff.mp (h.plays key hkey c hc)
    obtain ⟨q, hq, hcomposition, -⟩ := hs.stays key _ _ (recalls_of_players hp)
    exact Option.map_eq_some_iff.mpr ⟨q, hq, hcomposition⟩

/-- A player may change what it remembers, within its composition, and as long as it is not busy
also its composition. -/
theorem modifyPlayer (h : Fitting busy was s) {f : Player T C → Player T C}
    (hfits : ∀ p : Player T C, s.players[key]? = some p → (f p).memory.Fits (f p).composition)
    (hplays : key ∈ busy → ∀ p, (f p).composition = p.composition) :
    Fitting busy was (s.modifyPlayer key f) := by
  have hother : ∀ key' ≠ key, (s.modifyPlayer key f).players[key']? = s.players[key']? :=
    fun key' hne => by
      rw [Stage.modifyPlayer, List.getElem?_modify_ne _ _ hne.symm]
  refine ⟨fun key' p hp => ?_, fun key' hkey c hc => ?_⟩
  · by_cases hsame : key' = key
    · subst hsame
      rw [players_modifyPlayer] at hp
      obtain ⟨q, hq, rfl⟩ := Option.map_eq_some_iff.mp hp
      exact hfits q hq
    · exact h.fits key' p ((hother key' hsame).symm.trans hp)
  · have hbefore := h.plays key' hkey c hc
    unfold playing? at hbefore ⊢
    by_cases hsame : key' = key
    · subst hsame
      rw [players_modifyPlayer, Option.map_map]
      obtain ⟨q, hq, rfl⟩ := Option.map_eq_some_iff.mp hbefore
      rw [hq]
      exact congrArg some (hplays hkey q)
    · rw [hother key' hsame]
      exact hbefore

end Fitting

/-! ## How actions may fail -/

/-- Whatever stage with `I` an action starts on, it leaves one with `I` behind, and if it fails,
then only in an allowed way. -/
def Errs (allowed : StageFault T → Prop) (I : Stage T C W → Prop) (act : Action T C W α) : Prop :=
  ∀ s, I s → I (after act s) ∧ ∀ fault s', act s = .error fault s' → allowed fault

/-- It is not about a scene or a cue that is not there. -/
def Found (fault : StageFault T) : Prop := ∀ id, fault ≠ .missing id

namespace Errs

variable {allowed : StageFault T → Prop} {I : Stage T C W → Prop}

/-- What goes through fails in no way at all. -/
theorem of_goes {act : Action T C W α} (h : Goes I act) : Errs allowed I act := by
  intro s hs
  obtain ⟨a, s', hrun, hs'⟩ := h s hs
  rw [after, hrun]
  refine ⟨hs', fun fault s'' hfault => ?_⟩
  cases hfault

theorem pure (a : α) : Errs allowed I (Pure.pure a : Action T C W α) := .of_goes (.pure a)

theorem get : Errs allowed I (MonadState.get : Action T C W (Stage T C W)) := .of_goes .get

theorem change {f : Stage T C W → Stage T C W} (h : ∀ s, I s → I (f s)) :
    Errs allowed I (modify f : Action T C W Unit) := .of_goes (.change h)

theorem ofArith {value : Except ArithFault α}
    (h : ∀ fault, value = .error fault → allowed (.clock (.arith fault))) :
    Errs allowed I (Stage.ofArith value : Action T C W α) := by
  cases value with
  | error fault =>
      refine fun s hs => ⟨hs, fun fault' s' heq => ?_⟩
      cases heq
      exact h fault rfl
  | ok a => exact .pure a

theorem bind {act : Action T C W α} {next : α → Action T C W β} (hact : Errs allowed I act)
    (hnext : ∀ a, Errs allowed I (next a)) : Errs allowed I (act >>= next) := by
  intro s hs
  obtain ⟨hafter, hallowed⟩ := hact s hs
  unfold after at hafter ⊢
  cases hrun : act s with
  | ok a s₁ =>
      rw [hrun] at hafter
      rw [bind_ok hrun]
      exact hnext a s₁ hafter
  | error fault s₁ =>
      rw [hrun] at hafter
      rw [bind_error hrun]
      refine ⟨hafter, fun fault' s' heq => ?_⟩
      cases heq
      exact hallowed fault s₁ hrun

/-- Only allowed faults are ever caught. -/
theorem caught {act : Action T C W α} {handler : StageFault T → Action T C W α}
    (hact : Errs allowed I act)
    (hhandler : ∀ fault, allowed fault → Errs allowed I (handler fault)) :
    Errs allowed I (tryCatch act handler) := by
  intro s hs
  obtain ⟨hafter, hallowed⟩ := hact s hs
  unfold after at hafter ⊢
  cases hrun : act s with
  | ok a s₁ =>
      have htry : tryCatch act handler s = .ok a s₁ := by
        change EStateM.tryCatch act handler s = _
        rw [EStateM.tryCatch, hrun]
      rw [hrun] at hafter
      rw [htry]
      exact ⟨hafter, fun _ _ hfault => by cases hfault⟩
  | error fault s₁ =>
      have htry : tryCatch act handler s = handler fault s₁ := by
        change EStateM.tryCatch act handler s = _
        rw [EStateM.tryCatch, hrun]
        rfl
      rw [hrun] at hafter
      rw [htry]
      exact hhandler fault (hallowed fault s₁ hrun) s₁ hafter

theorem keeps {act : Action T C W α} (h : Errs allowed I act) : Keeps I act :=
  fun s hs => (h s hs).1

theorem attempt {act : Action T C W Unit} (h : Keeps I act) :
    Errs allowed I (Stage.attempt act) := by
  refine fun s hs => ⟨Keeps.attempt h s hs, fun fault s' heq => ?_⟩
  unfold Stage.attempt at heq
  cases hrun : act s <;> rw [hrun] at heq <;> cases heq

theorem tell {react : React T C W} {notice : Notice T}
    (h : ∀ c, Errs allowed I (react c notice)) (c : Option C) :
    Errs allowed I (Stage.tell react c notice) := by
  cases c with
  | none => exact .pure ()
  | some c => exact h c

theorem tellAll {react : React T C W} {notice : Notice T}
    (h : ∀ c, Errs allowed I (react c notice)) (cs : List C) :
    Errs allowed I (Stage.tellAll react notice cs) := by
  induction cs with
  | nil => exact .pure ()
  | cons c rest ih => exact (h c).bind fun _ => ih

theorem withPlayer {key : Nat} {act : Player T C → Action T C W Unit}
    (h : ∀ p, Errs allowed I (act p)) : Errs allowed I (Stage.withPlayer key act) := by
  refine Errs.get.bind fun s => ?_
  split
  · exact .pure ()
  · exact h _

theorem invokeEach {react : React T C W} {key : Nat} {hook : C}
    (h : ∀ notice, Keeps I (react hook notice)) (event : Option (PlayerEvent T)) (scope : Scope)
    (target : String) (codes : List String) :
    Errs allowed I (invokeEach react key hook event scope target codes) := by
  induction codes with
  | nil => exact .pure ()
  | cons code rest ih => exact .bind (.withPlayer fun _ => .attempt (h _)) fun _ => ih

theorem runScript {react : React T C W} {key : Nat} {hook : C}
    (h : ∀ notice, Keeps I (react hook notice)) (codes : List String) :
    Errs allowed I (runScript react key hook codes) := by
  induction codes with
  | nil => exact .pure ()
  | cons code rest ih =>
      exact .bind (.withPlayer fun _ => .withPlayer fun _ => .attempt (h _)) fun _ => ih

end Errs

/-! ## Ticks -/

section Ticks

variable {react : React T C W} {allowed : StageFault T → Prop} {I : Stage T C W → Prop} {key : Nat}
  {c : Composition T} {time : T} {frame : Int}

/-- Wherever `I` holds, a player plays a composition and remembers only what is in that, and it may
as well remember anything else that is. -/
structure Occupied (I : Stage T C W → Prop) (key : Nat) (c : Composition T) : Prop where
  plays : ∀ s, I s → ∃ p, s.players[key]? = some p ∧ p.composition = c ∧ p.memory.Fits c
  remembers : ∀ s (f : Player T C → Player T C), I s → (∀ p, f p = p.withMemory (f p).memory) →
    (∀ p, p.memory.Fits c → (f p).memory.Fits c) → I (s.modifyPlayer key f)

namespace Occupied

variable (h : Occupied I key c)
include h

theorem withPlayer {act : Player T C → Action T C W Unit}
    (hact : ∀ p, p.composition = c → p.memory.Fits c → Errs allowed I (act p)) :
    Errs allowed I (Stage.withPlayer key act) := by
  intro s hs
  obtain ⟨p, hp, hc, hfits⟩ := h.plays s hs
  rw [after, withPlayer_some hp]
  exact hact p hc hfits s hs

theorem remember {f : Player T C → Player T C} (hf : ∀ p, f p = p.withMemory (f p).memory)
    (hfits : ∀ p, p.memory.Fits c → (f p).memory.Fits c) : Errs allowed I (updatePlayer key f) :=
  .change fun s hs => h.remembers s f hs hf hfits

end Occupied

variable (hocc : Occupied I key c)
  (h : ∀ callback notice, Errs allowed I (react callback notice))

include hocc h

/-- An event about what is in the composition is told and handled. -/
theorem errs_dispatch {event : PlayerEvent T} (hknown : c.Knows event.occurrence) :
    Errs allowed I (dispatch react key event) := by
  have hhook (hook : C) (notice : Notice T) : Keeps I (react hook notice) := (h hook notice).keeps
  refine .withPlayer fun p => .bind (.tellAll (fun callback => h callback _) _) fun _ =>
    .withPlayer fun p => ?_
  split
  · exact .pure ()
  · rename_i hook _
    refine .bind (.invokeEach (hhook hook) _ _ _ _) fun _ => hocc.withPlayer fun p hp _ => ?_
    obtain ⟨handlers, hhandlers⟩ := hknown
    subst hp
    dsimp only
    rw [hhandlers]
    exact .invokeEach (hhook hook) _ _ _ _

theorem errs_dispatchIf {id : Option String} {occurrence : String → Occurrence}
    (hknown : ∀ x, id = some x → c.Knows (occurrence x)) :
    Errs allowed I (dispatchIf react key time frame id occurrence) := by
  cases id with
  | none => exact .pure ()
  | some x => exact errs_dispatch hocc h (hknown x rfl)

variable [TimeScalar T]

theorem errs_turnComponents {components : List (ComponentKey × TimedComponent T)}
    (hplaces : ∀ entry ∈ components, entry.1 ∈ c.componentKeys) :
    Errs allowed I (turnComponents react key time frame components) := by
  induction components with
  | nil => exact .pure ()
  | cons entry rest ih =>
      obtain ⟨place, component⟩ := entry
      obtain ⟨hplace, hrest⟩ := List.forall_mem_cons.mp hplaces
      refine .bind (.withPlayer fun p => ?_) fun _ => ih hrest
      dsimp only
      split
      · exact .bind (hocc.remember (fun _ => rfl) fun _ hp => hp.withPlace hplace _)
          fun _ => errs_dispatch hocc h ⟨_, rfl⟩
      · exact .pure ()

theorem errs_turnCues {cues : List (TimedCue T)} (hcues : ∀ cue ∈ cues, cue ∈ c.timedCues) :
    Errs allowed I (turnCues react key time frame cues) := by
  induction cues with
  | nil => exact .pure ()
  | cons cue rest ih =>
      obtain ⟨hcue, hrest⟩ := List.forall_mem_cons.mp hcues
      refine .bind (.withPlayer fun p => ?_) fun _ => ih hrest
      dsimp only
      split
      · exact .bind (hocc.remember (fun _ => rfl) fun _ hp => hp.withCue hcue)
          fun _ => errs_dispatch hocc h (Composition.knows_cue hcue).1
      · split
        · exact .bind (hocc.remember (fun _ => rfl) fun _ hp => hp.withoutCue _)
            fun _ => errs_dispatch hocc h (Composition.knows_cue hcue).2
        · exact .pure ()

/-- The scene that ends is remembered, and so is in the composition like the one that starts. -/
theorem errs_turnScene {active : Option String}
    (hactive : (c.activeScene? time).map Scene.id = active) :
    Errs allowed I (turnScene react key time frame active) := by
  subst hactive
  refine hocc.withPlayer fun p _ hp => ?_
  split
  · refine .bind (hocc.remember (fun _ => rfl) fun _ hq => hq.withScene time) fun _ =>
      .bind (errs_dispatchIf hocc h fun x hx => ?_) fun _ =>
        errs_dispatchIf hocc h fun x hx => ?_
    · obtain ⟨scene, hscene, rfl⟩ := hp.scene x hx
      exact (Composition.knows_scene hscene).2
    · obtain ⟨scene, hscene, rfl⟩ := Option.map_eq_some_iff.mp hx
      exact (Composition.knows_scene (Composition.activeScene?_mem hscene)).1
  · exact .pure ()

/-- A tick fails only where callbacks do, or where its frame cannot be counted. -/
theorem errs_handleTick (hs : I s)
    (hframe : ∀ p fault, s.players[key]? = some p →
      TimeScalar.frameAt time (s.playerFps p) = .error fault → allowed (.clock (.arith fault))) :
    I (after (handleTick react key time) s) ∧
      ∀ fault s', handleTick react key time s = .error fault s' → allowed fault := by
  have hrest : ∀ frame fps active, (c.activeScene? time).map Scene.id = active →
      Errs allowed I (do
        dispatch react key ⟨.tick fps, time, frame⟩
        withPlayer key fun p => turnCues react key time frame p.composition.timedCues
        turnScene react key time frame active
        tellTime react key time) := fun frame fps active hactive => by
    refine .bind (errs_dispatch hocc h ⟨_, rfl⟩) fun _ =>
      .bind (hocc.withPlayer fun p hp _ => ?_) fun _ =>
        .bind (errs_turnScene hocc h hactive) fun _ => .withPlayer fun p =>
          .tell (fun callback => h callback _) _
    rw [hp]
    exact errs_turnCues hocc h fun cue hmem => hmem
  obtain ⟨p, hp, rfl, -⟩ := hocc.plays s hs
  rw [after, handleTick, withPlayer_some hp, bind_ok (fpsOf_eq s p)]
  refine Errs.bind (.ofArith (hframe p · hp)) (fun frame => ?_) s hs
  -- components turn first, those of the active scene if there is one
  cases hactive : p.composition.activeScene? time with
  | none => exact hrest frame _ none (congrArg (Option.map Scene.id) hactive)
  | some scene =>
      refine .bind (errs_turnComponents hocc h fun entry hmem => ?_) fun _ =>
        hrest frame _ (some scene.id) (congrArg (Option.map Scene.id) hactive)
      have hplaced : (entry.1, entry.2) ∈ p.composition.placed time := by
        rw [Composition.placed, hactive]
        exact hmem
      exact Composition.componentKeys_of_placed hplaced

end Ticks

/-- A busy player plays what it did before. -/
theorem Fitting.occupied {busy : List Nat} {key : Nat} {c : Composition T} (hkey : key ∈ busy)
    (hc : was.playing? key = some c) : Occupied (Fitting busy was) key c := by
  have hplays {s : Stage T C W} (hs : Fitting busy was s) :
      ∃ p, s.players[key]? = some p ∧ p.composition = c :=
    Option.map_eq_some_iff.mp (hs.plays key hkey c hc)
  refine ⟨fun s hs => ?_, fun s f hs hf hfits => ?_⟩
  · obtain ⟨p, hp, rfl⟩ := hplays hs
    exact ⟨p, hp, rfl, hs.fits key p hp⟩
  · have hsame (p : Player T C) : (f p).composition = p.composition := by
      rw [hf]
      rfl
    refine hs.modifyPlayer (fun p hp => ?_) fun _ => hsame
    obtain ⟨q, hq, rfl⟩ := hplays hs
    obtain rfl := Option.some.inj (hq.symm.trans hp)
    rw [hsame]
    exact hfits q (hs.fits key q hq)

/-! ## Conduct -/

variable [TimeScalar T]

/-- What is done while some players are busy with a tick. They may tick again, and so may others;
players that are not busy may be given other compositions; and anything may happen that neither
changes what players play and remember nor looks for a scene or a cue. What callbacks do at a tick
or a rebind has to be of this kind, too. Failures may be caught; nothing is said about what is done
when a scene or a cue is missing, since that never comes up. -/
inductive Conduct : List Nat → {α : Type} → Action T C W α → Prop
  | aside {busy : List Nat} {α : Type} {act : Action T C W α}
      (hleaves : ∀ s, Unmoved s (after act s))
      (hfinds : ∀ s id s', act s ≠ .error (.missing id) s') : Conduct busy act
  | bind {busy : List Nat} {α β : Type} {act : Action T C W α} {next : α → Action T C W β}
      (hact : Conduct busy act) (hnext : ∀ a, Conduct busy (next a)) : Conduct busy (act >>= next)
  | caught {busy : List Nat} {α : Type} {act : Action T C W α}
      {handler : StageFault T → Action T C W α} (hact : Conduct busy act)
      (hhandler : ∀ fault, Found fault → Conduct busy (handler fault)) :
      Conduct busy (tryCatch act handler)
  | tick {busy : List Nat} {react : React T C W} {key : Nat} (time : T)
      (hreact : ∀ callback notice, Conduct (key :: busy) (react callback notice)) :
      Conduct busy (handleTick react key time)
  | rebind {busy : List Nat} {react : React T C W} {key : Nat} (c : Composition T)
      (hidle : key ∉ busy) (hreact : ∀ callback notice, Conduct busy (react callback notice)) :
      Conduct busy (Stage.rebind react key c)

/-- A tick of a player makes it busy, and holds on to what it plays. -/
theorem errs_tick {allowed : StageFault T → Prop} {react : React T C W} {busy : List Nat}
    {key : Nat} {time : T} (hframe : ∀ fault, allowed (.clock (.arith fault)))
    (h : ∀ callback notice was, Errs allowed (Fitting (key :: busy) was) (react callback notice)) :
    Errs allowed (Fitting busy was) (handleTick react key time) := by
  intro s hs
  cases hc : s.playing? key with
  | none =>
      rw [after, handleTick, withPlayer_none (Option.map_eq_none_iff.mp hc)]
      exact ⟨hs, fun _ _ hfault => by cases hfault⟩
  | some c =>
      obtain ⟨hafter, hallowed⟩ := errs_handleTick (Fitting.occupied List.mem_cons_self hc)
        (fun callback notice => h callback notice s) (hs.refl _) fun _ fault _ _ => hframe fault
      exact ⟨hs.of_cons hafter, hallowed⟩

theorem found_rebind {react : React T C W} {busy : List Nat} {key : Nat} (c : Composition T)
    (hidle : key ∉ busy)
    (h : ∀ callback notice, Errs Found (Fitting busy was) (react callback notice)) :
    Errs Found (Fitting busy was) (rebind react key c) := by
  have hscripts : Errs Found (Fitting busy was) (runScripts react key) := by
    refine .withPlayer fun p => ?_
    split
    · exact .pure ()
    · exact .runScript (fun notice => (h _ notice).keeps) _
  refine .bind (.change fun s hs => ?_) fun _ => .withPlayer fun p => ?_
  · exact hs.modifyPlayer (fun p _ => p.memory_bind c ▸ p.memory.fits_kept c)
      fun hbusy => absurd hbusy hidle
  · split
    · split
      · exact .bind (.change fun s hs => ⟨hs.fits, hs.plays⟩) fun _ => hscripts
      · exact hscripts
    · exact .pure ()

theorem Conduct.found {busy : List Nat} {act : Action T C W α} (h : Conduct busy act)
    (was : Stage T C W) : Errs Found (Fitting busy was) act := by
  induction h generalizing was with
  | aside hleaves hfinds =>
      refine fun s hs => ⟨hs.unmoved (hleaves s), fun fault s' hrun id heq => ?_⟩
      exact hfinds s id s' (heq ▸ hrun)
  | bind _ _ hact hnext => exact .bind (hact was) fun a => hnext a was
  | caught _ _ hact hhandler =>
      exact .caught (hact was) fun fault hfault => hhandler fault hfault was
  | tick time _ ih =>
      exact errs_tick (fun _ _ hfault => by cases hfault) ih
  | rebind c hidle _ ih => exact found_rebind c hidle fun callback notice => ih callback notice was

/-- However players tick and are given other compositions, if none is while it ticks, every player
remembers only a scene, cues and places of the composition that it plays; and nothing fails for
want of a scene or a cue. -/
theorem memories_current {act : Action T C W α} (hconduct : Conduct [] act)
    (hfresh : ∀ p ∈ s.players, p.memory = {}) :
    (∀ p ∈ (after act s).players, p.memory.Fits p.composition) ∧
      ∀ id s', act s ≠ .error (.missing id) s' := by
  have hs : Fitting [] s s := by
    refine ⟨fun key p hp => ?_, fun _ hkey => nomatch hkey⟩
    rw [hfresh p (List.mem_of_getElem? hp)]
    exact Memory.fits_fresh _
  obtain ⟨hafter, hfound⟩ := hconduct.found s s hs
  refine ⟨fun p hmem => ?_, fun id s' hrun => hfound _ s' hrun id rfl⟩
  obtain ⟨key, hp⟩ := List.mem_iff_getElem?.mp hmem
  exact hafter.fits key p hp

/-! ## A player that ticks while it ticks -/

/-- Told of an event, makes the player tick again, at another time. -/
def restless : React Rat Unit Unit := fun _ notice =>
  match notice with
  | .event _ => handleTick still 0 1
  | _ => pure ()

/-- A player whose ticks are heard, with a hook that may run handlers. -/
def listened : Stage Rat Unit Unit where
  source := .manual 0 {}
  players := [{
    composition := cuedScene 0 2 4
    options := { handlerHook := some () }
    group := "listened"
    listeners := [(.timelineTick, ())] }]
  outside := ()

/-- A tick during the cue, another composition, and a tick of that. -/
def switched : Action Rat Unit Unit Unit := do
  handleTick restless 0 3
  rebind still 0 (film [take "t" 0 4 []])
  handleTick restless 0 3

theorem conduct_pure {busy : List Nat} (a : α) : Conduct busy (pure a : Action T C W α) :=
  .aside (fun _ => ⟨fun _ _ _ h => h, fun _ _ _ h => .inl h⟩) fun _ _ _ hfault => by cases hfault

theorem restless_conduct {busy : List Nat} (callback : Unit) (notice : Notice Rat) :
    Conduct busy (restless callback notice) := by
  cases notice with
  | event event => exact .tick 1 fun _ _ => conduct_pure ()
  | _ => exact conduct_pure ()

/-- Neither the cue nor the scene that was active is remembered once the player plays what does not
have them. -/
theorem memories_current_switched :
    Conduct [] switched ∧ (∀ p ∈ listened.players, p.memory = {}) ∧
    ((after (handleTick restless 0 3) listened).players.map fun p =>
      (p.activeScene, p.activeCues)) = [(some "s", ["c"])] ∧
    ((after switched listened).players.map fun p => (p.activeScene, p.activeCues)) =
      [(some "t", [])] ∧
    (∀ p ∈ (after switched listened).players, p.memory.Fits p.composition) ∧
    ∀ id s', switched listened ≠ .error (.missing id) s' := by
  have hconduct : Conduct [] switched :=
    .bind (.tick 3 restless_conduct) fun _ =>
      .bind (.rebind _ (by decide) fun _ _ => conduct_pure ()) fun _ => .tick 3 restless_conduct
  have hfresh : ∀ p ∈ listened.players, p.memory = {} := by
    intro p hmem
    obtain rfl := List.mem_singleton.mp hmem
    rfl
  refine ⟨hconduct, hfresh, by decide +kernel, by decide +kernel, memories_current hconduct hfresh⟩

end Cuesheet.Stage
