import Cuesheet.Proofs.Player.Edges

/-!
# What listeners hear at a tick

Listeners that do not fail and leave the player alone are told the edges of a tick, each by all
who listen to its kind, in order (`proceed_tells`, `Composition.turns_run`). Nothing can go
wrong then but to count the frame, and that decides whether a tick goes through and does what it
is to do (`turnsRight_iff`). Floating point numbers know times whose frame is beyond them.
-/

namespace Cuesheet.Stage

variable {T C W : Type} {react : React T C W} {key : Nat} {log : W → List (C × PlayerEvent T)}
  {p p' : Player T C} {s s' : Stage T C W} {time : T} {frame : Int}

/-- Callbacks do not fail, leave a player alone, and write down the events they are told. -/
structure Attending (react : React T C W) (key : Nat) (log : W → List (C × PlayerEvent T)) :
    Prop where
  succeeds : ∀ callback notice s, ∃ s', react callback notice s = .ok () s'
  player : ∀ callback notice p, Keeps (fun s => s.players[key]? = some p) (react callback notice)
  event : ∀ callback event s, log (after (react callback (.event event)) s).outside =
    log s.outside ++ [(callback, event)]
  other : ∀ callback notice s, (∀ event, notice ≠ .event event) →
    log (after (react callback notice) s).outside = log s.outside

theorem Attending.aloof (h : Attending react key log) : Aloof react key := by
  rintro callback notice c m s ⟨p, hp, hc, hm⟩
  exact ⟨p, h.player callback notice p s hp, hc, hm⟩

/-! ## Who is told -/

/-- An action goes through, leaves a player as it is, and tells listeners of some events. -/
def Tells (log : W → List (C × PlayerEvent T)) (key : Nat) (p : Player T C)
    (told : List (C × PlayerEvent T)) (act : Action T C W Unit) : Prop :=
  ∀ s, s.players[key]? = some p → ∃ s', act s = .ok () s' ∧ s'.players[key]? = some p ∧
    log s'.outside = log s.outside ++ told

namespace Tells

variable {told more : List (C × PlayerEvent T)} {act next : Action T C W Unit}

theorem nothing : Tells log key p [] (pure ()) := fun s hp => ⟨s, rfl, hp, (List.append_nil _).symm⟩

theorem andThen (hact : Tells log key p told act) (hnext : Tells log key p more next) :
    Tells log key p (told ++ more) (do act; next) := by
  intro s hp
  obtain ⟨s₁, hrun, hp₁, hlog⟩ := hact s hp
  obtain ⟨s₂, hrun₂, hp₂, hlog₂⟩ := hnext s₁ hp₁
  refine ⟨s₂, (bind_ok hrun _).trans hrun₂, hp₂, ?_⟩
  rw [hlog₂, hlog, List.append_assoc]

theorem withPlayer {act : Player T C → Action T C W Unit} (h : Tells log key p told (act p)) :
    Tells log key p told (withPlayer key act) := by
  intro s hp
  rw [withPlayer_some hp]
  exact h s hp

theorem attempt (h : Tells log key p told act) : Tells log key p told (attempt act) := by
  intro s hp
  obtain ⟨s', hrun, hp', hlog⟩ := h s hp
  refine ⟨s', ?_, hp', hlog⟩
  unfold Stage.attempt
  rw [hrun]

theorem call (h : Attending react key log) (callback : C) (notice : Notice T)
    (hlog : ∀ s, log (after (react callback notice) s).outside = log s.outside ++ told) :
    Tells log key p told (react callback notice) := by
  intro s hp
  obtain ⟨s', hrun⟩ := h.succeeds callback notice s
  have hp' := h.player callback notice p s hp
  have hlog' := hlog s
  rw [after, hrun] at hp' hlog'
  exact ⟨s', hrun, hp', hlog'⟩

theorem other (h : Attending react key log) (callback : C) {notice : Notice T}
    (hother : ∀ event, notice ≠ .event event) : Tells log key p [] (react callback notice) :=
  call h callback notice fun s => by rw [h.other callback notice s hother, List.append_nil]

end Tells

/-- An event with each of those who listen to its kind. -/
def hearings (p : Player T C) (event : PlayerEvent T) : List (C × PlayerEvent T) :=
  (p.listenersTo event.kind).map fun callback => (callback, event)

theorem tellAll_tells (h : Attending react key log) (event : PlayerEvent T) (callbacks : List C) :
    Tells log key p (callbacks.map fun callback => (callback, event))
      (tellAll react (.event event) callbacks) := by
  induction callbacks with
  | nil => exact .nothing
  | cons callback rest ih => exact (Tells.call h callback _ (h.event callback event)).andThen ih

theorem invokeEach_tells (h : Attending react key log) (hook : C)
    (event : Option (PlayerEvent T)) (scope : Scope) (target : String) (codes : List String) :
    Tells log key p [] (invokeEach react key hook event scope target codes) := by
  induction codes with
  | nil => exact .nothing
  | cons code rest ih =>
      have hinvoke : Tells log key p [] (invoke react key hook event scope target code) :=
        .withPlayer (.attempt (.other h hook fun _ heq => by cases heq))
      exact hinvoke.andThen ih

/-- Handlers do not fail where the composition has what the event is about. -/
theorem runHandlers_tells (h : Attending react key log) {event : PlayerEvent T}
    (hknown : p.composition.Knows event.occurrence) :
    Tells log key p [] (runHandlers react key event) := by
  refine .withPlayer ?_
  cases p.options.handlerHook with
  | none => exact .nothing
  | some hook =>
      refine (invokeEach_tells h hook _ _ _ _).andThen (.withPlayer ?_)
      obtain ⟨handlers, hhandlers⟩ := hknown
      dsimp only
      rw [hhandlers]
      exact invokeEach_tells h hook _ _ _ _

theorem dispatch_tells (h : Attending react key log) (event : PlayerEvent T)
    (hknown : p.composition.Knows event.occurrence) :
    Tells log key p (hearings p event) (dispatch react key event) := by
  have htold := (tellAll_tells (p := p) h event (p.listenersTo event.kind)).andThen
    (runHandlers_tells h hknown)
  rw [List.append_nil] at htold
  exact .withPlayer htold

/-- Turns go through, and of each all are told who listen to its kind. -/
theorem proceed_tells (h : Attending react key log) (time : T) (frame : Int) {turns : List Turn}
    (hp : s.players[key]? = some p)
    (hknown : ∀ turn ∈ turns, p.composition.Knows turn.occurrence) :
    ∃ s', proceed react key time frame turns s = .ok () s' ∧
      s'.players[key]? = some (p.withMemory (Turn.last p.memory turns)) ∧
      log s'.outside = log s.outside ++
        (turns.map Turn.occurrence).flatMap fun occurrence =>
          hearings p ⟨occurrence, time, frame⟩ := by
  induction turns generalizing s p with
  | nil => exact ⟨s, rfl, hp, (List.append_nil _).symm⟩
  | cons turn rest ih =>
      obtain ⟨hturn, hrest⟩ := List.forall_mem_cons.mp hknown
      have hmoved : (s.modifyPlayer key fun p => p.withMemory turn.memory).players[key]? =
          some (p.withMemory turn.memory) := by
        rw [players_modifyPlayer, hp]
        rfl
      obtain ⟨s₁, hdispatch, hp₁, hlog₁⟩ :=
        dispatch_tells (p := p.withMemory turn.memory) h ⟨turn.occurrence, time, frame⟩ hturn _
          hmoved
      obtain ⟨s₂, hproceed, hp₂, hlog₂⟩ := ih hp₁ hrest
      refine ⟨s₂, ?_, hp₂, ?_⟩
      · rw [proceed_cons, bind_ok hdispatch]
        exact hproceed
      · rw [hlog₂, hlog₁, List.append_assoc]
        rfl

/-! ## Right ticks -/

variable [TimeScalar T]

theorem tellTime_tells (h : Attending react key log) (time : T) :
    Tells log key p [] (tellTime react key time) := by
  refine .withPlayer ?_
  cases p.options.onTimeUpdate with
  | none => exact .nothing
  | some callback => exact .other h callback fun _ heq => by cases heq

/-- A tick at a time goes through. Afterwards the last scene in order is active whose window holds
the time, and just the cues are whose windows do; and listeners have been told the edges, in
order. Earlier ticks show in nothing but in what counts as an edge. -/
def TurnsRight (react : React T C W) (log : W → List (C × PlayerEvent T)) (key : Nat)
    (earlier : List T) (time : T) (p : Player T C) (s : Stage T C W) : Prop :=
  ∃ s' p', handleTick react key time s = .ok () s' ∧ s'.players[key]? = some p' ∧
    p'.activeScene = (scenesAt time p.composition.scenes).getLast?.map Scene.id ∧
    (∀ x, x ∈ p'.activeCues ↔ ∃ cue ∈ p.composition.timedCues, cue.id = x ∧ cue.isActive time) ∧
    ∀ frame, TimeScalar.frameAt time (s.playerFps p) = .ok frame →
      log s'.outside = log s.outside ++
        (p.composition.edges earlier time (s.playerFps p)).flatMap fun occurrence =>
          hearings p ⟨occurrence, time, frame⟩

/-- With listeners that do not fail and leave the player alone, a tick of a player, after any
earlier ones, is right exactly if the number of its frame can be computed. -/
theorem turnsRight_iff (hattend : Attending react key log) {earlier : List T} {s₀ : Stage T C W}
    {p₀ : Player T C} (hp₀ : s₀.players[key]? = some p₀) (hfresh : p₀.memory = {})
    (hdistinct : p₀.composition.Distinct) (hticks : Ticks react key earlier s₀ s)
    (hp : s.players[key]? = some p) (time : T) :
    TurnsRight react log key earlier time p s ↔
      ∃ frame, TimeScalar.frameAt time (s.playerFps p) = .ok frame := by
  have hrecalls := hticks.recalls hattend.aloof (recalls_of_players hp₀)
  rw [hfresh] at hrecalls
  obtain ⟨q, hq, hcomposition, hmemory⟩ := hrecalls
  obtain rfl := Option.some.inj (hq.symm.trans hp)
  rw [← hcomposition] at hdistinct hmemory
  constructor
  · rintro ⟨s', p', hrun, -⟩
    rw [handleTick_eq hattend.aloof hp] at hrun
    obtain ⟨frame, s₁, hframe, -⟩ := ok_of_bind hrun
    exact ⟨frame, (ofArith_ok hframe).1⟩
  · rintro ⟨frame, hframe⟩
    have hedges := Composition.turns_run hdistinct earlier time (s.playerFps q)
    rw [← hmemory] at hedges
    have hknown : ∀ turn ∈ q.composition.turns time (s.playerFps q) q.memory,
        q.composition.Knows turn.occurrence := fun turn hturn => by
      have htold : turn.occurrence ∈ q.composition.edges earlier time (s.playerFps q) := by
        rw [← hedges]
        exact List.mem_map_of_mem hturn
      exact Composition.knows_edges htold
    obtain ⟨s₁, hproceed, hp₁, hlog₁⟩ := proceed_tells hattend time frame hp hknown
    rw [Composition.last_turns] at hp₁
    obtain ⟨s₂, htell, hp₂, hlog₂⟩ := tellTime_tells hattend time _ hp₁
    refine ⟨s₂, _, ?_, hp₂, ?_, fun x => ?_, fun frame' hframe' => ?_⟩
    · rw [handleTick_eq hattend.aloof hp, hframe]
      exact (bind_ok hproceed _).trans htell
    · exact Composition.activeScene?_eq q.composition earlier time
    · have hfits : q.memory.Fits q.composition := by
        rw [hmemory]
        exact Composition.fits_run _ _
      exact hdistinct.mem_ticked hfits
    · rw [hframe] at hframe'
      cases hframe'
      rw [hlog₂, hlog₁, hedges, List.append_nil]

/-! ## A tick whose frame cannot be counted -/

/-- Writes down the events that it is told. -/
def taking {T : Type} : React T Unit (List (Unit × PlayerEvent T)) := fun callback notice =>
  match notice with
  | .event event => modify fun s => { s with outside := s.outside ++ [(callback, event)] }
  | _ => pure ()

omit [TimeScalar T] in
theorem taking_attending (key : Nat) : Attending (taking (T := T)) key id where
  succeeds callback notice s := by cases notice <;> exact ⟨_, rfl⟩
  player callback notice p s hp := by cases notice <;> exact hp
  event callback event s := rfl
  other callback notice s h := by
    cases notice with
    | event event => exact absurd rfl (h event)
    | _ => rfl

/-- A scene from zero to a time, with a cue from another time on. -/
def cuedScene {T : Type} (zero middle stop : T) : Composition T where
  id := "film"
  title := none
  fps := .int 30
  width := .int 1
  height := .int 1
  scenes := [{
    id := "s"
    title := ""
    start := zero
    stop := some stop
    items := [.cue {
      id := "c"
      label := ""
      segments := []
      bullets := []
      provider := none
      start := some middle
      stop := none
      handlers := [] }]
    layers := []
    components := []
    styles := none
    markup := none
    handlers := [] }]
  duration := none
  poster := none
  voiceover := none
  handlers := []
  scripts := []

/-- A player of it, with a listener to everything. -/
def attended {T : Type} (zero middle stop : T) : Stage T Unit (List (Unit × PlayerEvent T)) where
  source := .manual zero {}
  players := [{
    composition := cuedScene zero middle stop
    options := {}
    group := "attended"
    listeners := EventKind.all.map fun kind => (kind, ()) }]
  outside := []

theorem cuedScene_distinct {T : Type} (zero middle stop : T) :
    (cuedScene zero middle stop).Distinct :=
  ⟨List.nodup_singleton _, List.nodup_singleton _⟩

example : (cuedScene (0 : Rat) 2 4).edges [3, 1] 5 (.int 30) =
    [.tick (.int 30), .sceneEnd "s"] := by rfl

/-- In exact time, the tick at three after the one at one is right: the cue is told to start. -/
theorem attended_later : ∃ s' p', Ticks taking 0 [1] (attended (0 : Rat) 2 4) s' ∧
    s'.players[0]? = some p' ∧ TurnsRight taking id 0 [1] (3 : Rat) p' s' := by
  have hfirst : handleTick taking 0 1 (attended (0 : Rat) 2 4) =
      .ok () (after (handleTick taking 0 1) (attended (0 : Rat) 2 4)) :=
    ok_after (by decide +kernel)
  have hticks := Ticks.tick (.nil (attended (0 : Rat) 2 4)) hfirst
  obtain ⟨p', hp', hcomposition, -⟩ :=
    hticks.recalls (taking_attending 0).aloof (recalls_of_players (p := _) rfl)
  refine ⟨_, p', hticks, hp', (turnsRight_iff (taking_attending 0) rfl rfl
    (cuedScene_distinct _ _ _) hticks hp' 3).mpr ⟨90, ?_⟩⟩
  have hframe : ((after (handleTick taking 0 1) (attended (0 : Rat) 2 4)).players[0]?).map
      (fun p => TimeScalar.frameAt (3 : Rat)
        ((after (handleTick taking 0 1) (attended (0 : Rat) 2 4)).playerFps p)) =
      some (.ok 90) := by decide +kernel
  rw [hp'] at hframe
  exact Option.some.inj hframe

/-- In floating point numbers, the tick at a time as large as they come fails. -/
theorem attended_beyond : ∃ s' p', Ticks taking 0 [1] (attended (0 : Float) 2 4) s' ∧
    s'.players[0]? = some p' ∧ ¬ TurnsRight taking id 0 [1] (1e308 : Float) p' s' := by
  have hfirst : handleTick taking 0 1 (attended (0 : Float) 2 4) =
      .ok () (after (handleTick taking 0 1) (attended (0 : Float) 2 4)) :=
    ok_after (by decide +kernel)
  have hticks := Ticks.tick (.nil (attended (0 : Float) 2 4)) hfirst
  obtain ⟨p', hp', hcomposition, -⟩ :=
    hticks.recalls (taking_attending 0).aloof (recalls_of_players (p := _) rfl)
  refine ⟨_, p', hticks, hp', ?_⟩
  rintro ⟨s', p'', hrun, -⟩
  have hfails : isOk (handleTick taking 0 (1e308 : Float)
      (after (handleTick taking 0 1) (attended (0 : Float) 2 4))) = false := by decide +kernel
  rw [hrun] at hfails
  cases hfails

end Cuesheet.Stage
