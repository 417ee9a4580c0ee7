import Cuesheet.Proofs.Player.Bracketing
import Cuesheet.Proofs.Stage.Hearing

/-!
# Ticks that are cut short

Somebody who is told before all others writes down every event of a player, whoever fails
afterwards. What is written down at a tick are its turns up to the one at which somebody failed,
and that one is what the player remembers (`handleTick_cut`). So what is written down over many
ticks is well bracketed unless the start of a scene is lost, and a later tick tells about scenes
(`ran_bracketed_iff`).
-/

namespace Cuesheet.Stage

variable {T C W : Type} {react : React T C W} {key : Nat} {scribe : C}
  {log : W → List (PlayerEvent T)} {c : Composition T} {m : Memory} {s s' : Stage T C W}
  {written : List (PlayerEvent T)}

/-- Somebody listens to every kind of event, before all others. -/
def Listens (key : Nat) (scribe : C) (s : Stage T C W) : Prop :=
  ∃ p, s.players[key]? = some p ∧
    ∀ kind, ∃ others, p.listenersTo kind = scribe :: others ∧ scribe ∉ others

/-- The first listener writes down every event, and nobody else does. Callbacks leave alone what
the player plays and remembers, and who is told first. They may fail, also the first listener. -/
structure Chronicled (react : React T C W) (key : Nat) (scribe : C)
    (log : W → List (PlayerEvent T)) : Prop where
  aloof : Aloof react key
  listens : ∀ callback notice, Keeps (Listens key scribe) (react callback notice)
  writes : ∀ event s,
    log (after (react scribe (.event event)) s).outside = log s.outside ++ [event]
  silent : ∀ callback notice s, (callback ≠ scribe ∨ ∀ event, notice ≠ .event event) →
    log (after (react callback notice) s).outside = log s.outside

/-- What the player plays and remembers, and what was written down about it. -/
structure Written (key : Nat) (scribe : C) (log : W → List (PlayerEvent T)) (c : Composition T)
    (m : Memory) (written : List (PlayerEvent T)) (s : Stage T C W) : Prop where
  recalls : Recalls key c m s
  listens : Listens key scribe s
  log : log s.outside = written

/-! ## Events -/

theorem Chronicled.keeps (h : Chronicled react key scribe log) {callback : C} {notice : Notice T}
    (hsilent : callback ≠ scribe ∨ ∀ event, notice ≠ .event event) :
    Keeps (Written key scribe log c m written) (react callback notice) := fun s hs =>
  ⟨h.aloof callback notice c m s hs.recalls, h.listens callback notice s hs.listens,
    (h.silent callback notice s hsilent).trans hs.log⟩

/-- Whoever fails, an event is written down. -/
theorem Chronicled.dispatch (h : Chronicled react key scribe log) (event : PlayerEvent T)
    (hs : Written key scribe log c m written s) :
    Written key scribe log c m (written ++ [event]) (after (dispatch react key event) s) := by
  obtain ⟨p, hp, hfirst⟩ := hs.listens
  obtain ⟨others, hothers, hnotin⟩ := hfirst event.kind
  rw [after, Stage.dispatch, withPlayer_some hp, hothers]
  have hwrites : Leads (Written key scribe log c m written)
      (Written key scribe log c m (written ++ [event])) (react scribe (.event event)) := by
    refine fun s hs => ⟨h.aloof scribe _ c m s hs.recalls, h.listens scribe _ s hs.listens, ?_⟩
    rw [h.writes, hs.log]
  have hothers : Keeps (Written key scribe log c m (written ++ [event]))
      (tellAll react (.event event) others) := by
    clear hothers
    induction others with
    | nil => exact .pure ()
    | cons other rest ih =>
        obtain ⟨hne, hrest⟩ := List.ne_and_not_mem_of_not_mem_cons hnotin
        exact .bind (h.keeps (.inl (Ne.symm hne))) fun _ => ih hrest
  refine Leads.bind (hwrites.bind (fun _ => hothers) fun _ hs => hs) (fun _ => ?_)
    (fun _ hs => hs) s hs
  refine Keeps.runHandlers (fun hook invocation => ?_) key event
  exact h.keeps (.inr fun _ hevent => by cases hevent)

/-! ## Ticks -/

theorem Written.remember (h : Written key scribe log c m written s) (m' : Memory) :
    Written key scribe log c m' written (s.modifyPlayer key fun p => p.withMemory m') := by
  refine ⟨recalls_withMemory h.recalls m', ?_, h.log⟩
  obtain ⟨p, hp, hfirst⟩ := h.listens
  refine ⟨p.withMemory m', ?_, hfirst⟩
  rw [players_modifyPlayer, hp]
  rfl

/-- Turns are written down up to the one at which somebody fails, which is remembered. -/
theorem Chronicled.proceed (h : Chronicled react key scribe log) (time : T) (frame : Int)
    (turns : List Turn) (hs : Written key scribe log c m written s) :
    ∃ done, done <+: turns ∧ Written key scribe log c (Turn.last m done)
      (written ++ done.map fun turn => ⟨turn.occurrence, time, frame⟩)
      (after (proceed react key time frame turns) s) := by
  induction turns generalizing m s written with
  | nil => exact ⟨[], List.prefix_refl _, by rw [List.map_nil, List.append_nil]; exact hs⟩
  | cons turn rest ih =>
      have htold := h.dispatch ⟨turn.occurrence, time, frame⟩ (hs.remember turn.memory)
      rw [after, proceed_cons]
      cases hdispatch : Stage.dispatch react key ⟨turn.occurrence, time, frame⟩
          (s.modifyPlayer key fun p => p.withMemory turn.memory) with
      | error fault s₁ =>
          rw [after, hdispatch] at htold
          rw [bind_error hdispatch]
          exact ⟨[turn], ⟨rest, rfl⟩, htold⟩
      | ok _ s₁ =>
          rw [after, hdispatch] at htold
          rw [bind_ok hdispatch]
          obtain ⟨done, hdone, hwritten⟩ := ih htold
          refine ⟨turn :: done, (List.prefix_cons_inj _).mpr hdone, ?_⟩
          rw [List.append_assoc] at hwritten
          exact hwritten

variable [TimeScalar T]

/-- A tick writes down some first turns, and the last of them is remembered. -/
theorem Chronicled.handleTick (h : Chronicled react key scribe log) (time : T)
    (hs : Written key scribe log c m written s) :
    ∃ fps frame done, done <+: c.turns time fps m ∧ Written key scribe log c (Turn.last m done)
      (written ++ done.map fun turn => ⟨turn.occurrence, time, frame⟩)
      (after (handleTick react key time) s) := by
  obtain ⟨p, hp, rfl, rfl⟩ := id hs.recalls
  rw [after, handleTick_eq h.aloof hp]
  cases hframe : TimeScalar.frameAt time (s.playerFps p) with
  | error fault =>
      refine ⟨s.playerFps p, 0, [], List.nil_prefix, ?_⟩
      rw [List.map_nil, List.append_nil]
      exact hs
  | ok frame =>
      have hcounted : ofArith (W := W) (C := C) (Except.ok frame) s = .ok frame s := rfl
      rw [bind_ok hcounted]
      obtain ⟨done, hdone, hwritten⟩ :=
        h.proceed time frame (p.composition.turns time (s.playerFps p) p.memory) hs
      refine ⟨s.playerFps p, frame, done, hdone, ?_⟩
      refine Leads.bind (I := fun s' => s' = s) (fun s' hs' => hs' ▸ hwritten) (fun _ => ?_)
        (fun _ hs => hs) s rfl
      refine Keeps.withPlayer fun p => ?_
      cases p.options.onTimeUpdate with
      | none => exact .pure ()
      | some callback => exact h.keeps (.inr fun _ hevent => by cases hevent)

/-! ## Runs -/

/-- What an action writes down. -/
def writing (log : W → List (PlayerEvent T)) (act : Action T C W Unit) (s : Stage T C W) :
    List (PlayerEvent T) :=
  (log (after act s).outside).drop (log s.outside).length

/-- A player is ticked, whether or not somebody fails. Between two ticks anything may happen that
leaves the player and what is written down alone. -/
inductive Ran (react : React T C W) (key : Nat) (scribe : C) (log : W → List (PlayerEvent T))
    (s : Stage T C W) : List (ToldTick T) → Stage T C W → Prop
  | start : Ran react key scribe log s [] s
  | aside {ticks : List (ToldTick T)} {s₁ s₂ : Stage T C W}
      (ran : Ran react key scribe log s ticks s₁) (player : Undisturbed key s₁ s₂)
      (listens : Listens key scribe s₁ → Listens key scribe s₂)
      (silent : log s₂.outside = log s₁.outside) : Ran react key scribe log s ticks s₂
  | tick {ticks : List (ToldTick T)} {s₁ : Stage T C W}
      (ran : Ran react key scribe log s ticks s₁) (time : T) :
      Ran react key scribe log s
        (ticks ++ [⟨time, (writing log (handleTick react key time) s₁).map PlayerEvent.occurrence⟩])
        (after (handleTick react key time) s₁)

/-- What is written down over a run is what the ticks tell, each as far as it comes. -/
theorem Ran.heard (hchronicled : Chronicled react key scribe log)
    (hs : Written key scribe log c {} [] s)
    {ticks : List (ToldTick T)} (h : Ran react key scribe log s ticks s') :
    ∃ m written, Written key scribe log c m written s' ∧ c.Heard ticks m ∧
      written.map PlayerEvent.occurrence = Composition.stream ticks := by
  induction h with
  | start => exact ⟨{}, [], hs, .nil, rfl⟩
  | aside _ player listens hsilent ih =>
      obtain ⟨m, written, hwritten, hheard, hstream⟩ := ih
      exact ⟨m, written, ⟨player c m hwritten.recalls, listens hwritten.listens,
        hsilent.trans hwritten.log⟩, hheard, hstream⟩
  | @tick ticks s₁ _ time ih =>
      obtain ⟨m, written, hwritten, hheard, hstream⟩ := ih
      obtain ⟨fps, frame, done, hdone, hafter⟩ := hchronicled.handleTick time hwritten
      have hnew : (writing log (handleTick react key time) s₁).map PlayerEvent.occurrence =
          done.map Turn.occurrence := by
        rw [writing, hafter.log, hwritten.log, List.drop_left, List.map_map]
        rfl
      refine ⟨_, _, hafter, ?_, ?_⟩
      · rw [hnew]
        exact hheard.tick time fps hdone
      · rw [Composition.stream_concat, hnew, List.map_append, hstream, List.map_map]
        rfl

/-- Whoever fails, what is told over many ticks is well bracketed if and only if no later tick tells
about scenes than one that loses the start of a scene: whose last event is the end of a scene,
although another scene is active. -/
theorem ran_bracketed_iff (hchronicled : Chronicled react key scribe log)
    (hfresh : Recalls key c {} s) (hlistens : Listens key scribe s) (hlog : log s.outside = [])
    {ticks : List (ToldTick T)} (hran : Ran react key scribe log s ticks s') :
    WellBracketed ((log s'.outside).map PlayerEvent.occurrence) ↔ c.KeepsStarts ticks := by
  obtain ⟨m, written, hwritten, hheard, hstream⟩ := hran.heard hchronicled ⟨hfresh, hlistens, hlog⟩
  rw [hwritten.log, hstream]
  exact hheard.bracketed_iff

/-! ## A listener that fails -/

/-- One callback writes events down, the other one fails. -/
def tripping : React Rat Bool (List (PlayerEvent Rat))
  | false, .event event => modify fun s => { s with outside := s.outside ++ [event] }
  | false, _ => pure ()
  | true, _ => throw (.callback "boom")

theorem tripping_chronicled (key : Nat) : Chronicled tripping key false id where
  aloof callback notice c m s hs := by
    cases callback <;> cases notice <;> exact hs
  listens callback notice s hs := by
    cases callback <;> cases notice <;> exact hs
  writes event s := rfl
  silent callback notice s h := by
    cases callback with
    | true => rfl
    | false =>
        cases notice with
        | event event =>
            rcases h with h | h
            · exact absurd rfl h
            · exact absurd rfl (h event)
        | _ => rfl

/-- Two scenes, one after the other. Whoever hears that a scene ends fails. -/
def tripped : Stage Rat Bool (List (PlayerEvent Rat)) where
  source := .manual 0 {}
  players := [{
    composition := film [take "a" 0 2 [], take "b" 2 4 []]
    options := {}
    group := "tripped"
    listeners := EventKind.all.map (fun kind => (kind, false)) ++ [(.sceneEnd, true)] }]
  outside := []

theorem tripped_listens : Listens 0 false tripped := by
  refine ⟨_, rfl, fun kind => ?_⟩
  cases kind with
  | sceneEnd => exact ⟨[true], rfl, by decide⟩
  | _ => exact ⟨[], rfl, by decide⟩

/-- A start that was lost does no harm as long as nothing else is told about scenes. -/
theorem tripped_bracketed : ∃ s',
    Ran tripping 0 false id tripped
      [⟨1, [.tick (.int 30), .sceneStart "a"]⟩, ⟨3, [.tick (.int 30), .sceneEnd "a"]⟩,
        ⟨3, [.tick (.int 30)]⟩] s' ∧
      WellBracketed (s'.outside.map PlayerEvent.occurrence) := by
  have hran : Ran tripping 0 false id tripped _ _ := ((Ran.start.tick 1).tick 3).tick 3
  refine ⟨_, hran, (ran_bracketed_iff (tripping_chronicled 0) ⟨_, rfl, rfl, rfl⟩ tripped_listens rfl
    hran).mpr ?_⟩
  refine List.pairwise_cons.mpr ⟨?_, List.pairwise_cons.mpr ⟨?_, List.pairwise_singleton _ _⟩⟩
  · rintro later - ⟨⟨x, hx⟩, -⟩
    cases hx
  · rintro later hlater -
    obtain rfl := List.mem_singleton.mp hlater
    rintro occurrence hoccurrence
    obtain rfl := List.mem_singleton.mp hoccurrence
    rfl

/-- At the end of the second scene, its start has not been told. -/
theorem tripped_not_bracketed : ∃ ticks s', Chronicled tripping 0 false id ∧
    Recalls 0 (film [take "a" 0 2 [], take "b" 2 4 []]) {} tripped ∧ Listens 0 false tripped ∧
      Ran tripping 0 false id tripped ticks s' ∧ ticks.map ToldTick.time = [1, 3, 5] ∧
        ¬ WellBracketed (s'.outside.map PlayerEvent.occurrence) := by
  have hran : Ran tripping 0 false id tripped _ _ := ((Ran.start.tick 1).tick 3).tick 5
  refine ⟨_, _, tripping_chronicled 0, ⟨_, rfl, rfl, rfl⟩, tripped_listens, hran, rfl, ?_⟩
  rintro ⟨hscenes, -⟩
  revert hscenes
  decide +kernel

end Cuesheet.Stage
