import Cuesheet.Proofs.Player.Tiling
import Cuesheet.Proofs.Stage.Edges
import Cuesheet.Proofs.Stage.Hosting

/-!
# Ticks on tiled timelines

With callbacks that do not fail and leave the player alone, a tick whose frame can be counted goes
through and leaves the active scene of its time (`handleTick_obliged`). So on a timeline that
scenes tile, a tick makes the only scene active that holds the time, exactly if the frame can be
counted (`rightly_iff_countable`).
-/

namespace Cuesheet.Stage

variable {T C W : Type} {react : React T C W} {key : Nat} {p : Player T C} {s : Stage T C W}
  {act : Action T C W Unit} {time : T} {frame : Int}

/-- What a key stands for. -/
def Stands (key : Nat) (p : Player T C) (s : Stage T C W) : Prop := s.players[key]? = some p

/-- Callbacks do not fail, and leave a player alone. -/
def Obliging (react : React T C W) (key : Nat) : Prop :=
  ∀ callback notice p, Goes (Stands key p) (react callback notice)

theorem Obliging.aloof (h : Obliging react key) : Aloof react key := by
  rintro callback notice c m s ⟨p, hp, hc, hm⟩
  exact ⟨p, (h callback notice p).keeps s hp, hc, hm⟩

theorem Attending.obliging {log : W → List (C × PlayerEvent T)} (h : Attending react key log) :
    Obliging react key := by
  intro callback notice p s hp
  obtain ⟨s', hrun⟩ := h.succeeds callback notice s
  exact ⟨(), s', hrun, keeps_ok (h.player callback notice p) hp hrun⟩

theorem Stands.withPlayer {act : Player T C → Action T C W Unit} (h : Goes (Stands key p) (act p)) :
    Goes (Stands key p) (withPlayer key act) := by
  intro s hp
  rw [withPlayer_some hp]
  exact h s hp

/-! ## Ticks go through -/

theorem goes_invokeEach (h : Obliging react key) (hook : C) (event : Option (PlayerEvent T))
    (scope : Scope) (target : String) (codes : List String) :
    Goes (Stands key p) (invokeEach react key hook event scope target codes) := by
  induction codes with
  | nil => exact .pure ()
  | cons code rest ih =>
      exact .bind (.withPlayer fun _ => .attempt (h hook _ p).keeps) fun _ => ih

/-- Handlers can be run where the composition has what the event is about. -/
theorem goes_dispatch (h : Obliging react key) {event : PlayerEvent T}
    (hknown : p.composition.Knows event.occurrence) :
    Goes (Stands key p) (dispatch react key event) := by
  refine .withPlayer fun q => .bind (.tellAll (fun callback => h callback _ p) _) fun _ =>
    Stands.withPlayer ?_
  cases p.options.handlerHook with
  | none => exact .pure ()
  | some hook =>
      refine .bind (goes_invokeEach h hook _ _ _ _) fun _ => Stands.withPlayer ?_
      obtain ⟨handlers, hhandlers⟩ := hknown
      dsimp only
      rw [hhandlers]
      exact goes_invokeEach h hook _ _ _ _

theorem proceed_obliged (h : Obliging react key) (time : T) (frame : Int) {turns : List Turn}
    (hp : s.players[key]? = some p)
    (hknown : ∀ turn ∈ turns, p.composition.Knows turn.occurrence) :
    ∃ s', proceed react key time frame turns s = .ok () s' ∧
      s'.players[key]? = some (p.withMemory (Turn.last p.memory turns)) := by
  induction turns generalizing s p with
  | nil => exact ⟨s, rfl, hp⟩
  | cons turn rest ih =>
      obtain ⟨hturn, hrest⟩ := List.forall_mem_cons.mp hknown
      have hmoved : (s.modifyPlayer key fun p => p.withMemory turn.memory).players[key]? =
          some (p.withMemory turn.memory) := by
        rw [players_modifyPlayer, hp]
        rfl
      have hgoes : Goes (Stands key (p.withMemory turn.memory))
          (dispatch react key ⟨turn.occurrence, time, frame⟩) := goes_dispatch h hturn
      obtain ⟨_, s₁, hdispatch, hp₁⟩ := hgoes _ hmoved
      obtain ⟨s₂, hproceed, hp₂⟩ := ih hp₁ hrest
      rw [proceed_cons, bind_ok hdispatch]
      exact ⟨s₂, hproceed, hp₂⟩

variable [TimeScalar T]

/-- A tick whose frame can be counted goes through, and leaves the player with what it remembers
after all turns. -/
theorem handleTick_obliged (h : Obliging react key) (hp : s.players[key]? = some p)
    (hfits : p.memory.Fits p.composition)
    (hframe : TimeScalar.frameAt time (s.playerFps p) = .ok frame) :
    ∃ s', handleTick react key time s = .ok () s' ∧
      s'.players[key]? = some (p.withMemory (p.composition.ticked time p.memory)) := by
  have hknown : ∀ turn ∈ p.composition.turns time (s.playerFps p) p.memory,
      p.composition.Knows turn.occurrence := fun _ hturn => Composition.knows_turns hfits hturn
  obtain ⟨s₁, hproceed, hp₁⟩ := proceed_obliged h time frame hp hknown
  rw [Composition.last_turns] at hp₁
  have htell : Goes (Stands key (p.withMemory (p.composition.ticked time p.memory)))
      (tellTime react key time) :=
    .withPlayer fun q => .tell (fun callback => h callback _ _) _
  obtain ⟨_, s₂, hrun, hp₂⟩ := htell s₁ hp₁
  refine ⟨s₂, ?_, hp₂⟩
  rw [handleTick_eq h.aloof hp, hframe]
  exact (bind_ok hproceed _).trans hrun

/-! ## Ticks on a tiled timeline -/

/-- A tick at a time goes through. It makes the scene active that is the only one whose window
holds the time; once the last scene is over there is none, and none is active. -/
def TicksOnTile (react : React Float C W) (key : Nat) (c : Composition Float) (time : Float)
    (s : Stage Float C W) : Prop :=
  ∃ s' p, handleTick react key time s = .ok () s' ∧ s'.players[key]? = some p ∧
    (Lasts time c.scenes →
      ∃ scene, scenesAt time c.scenes = [scene] ∧ p.activeScene = some scene.id) ∧
    (¬ Lasts time c.scenes → scenesAt time c.scenes = [] ∧ p.activeScene = none)

/-- From zero on, scenes that are resolved, have numbers as times and do not say when they start
tile the timeline. Whatever a player of them has been through, a tick makes the scene active that
holds the time, exactly if the frame of the time can be counted. -/
theorem ticksOnTile_iff {C W : Type} {react : React Float C W} {key : Nat} {s : Stage Float C W}
    {p : Player Float C} {root : Element} {c : Composition Float} {time : Float}
    (hobliging : Obliging react key) (hc : Resolution.compose root = .ok c)
    (himplicit : ∀ el ∈ root.childElements ["scene"], el.get? "start" = none)
    (hnumbered : c.Numbered) (htime : 0 ≤ time) (hplays : Plays react key c s)
    (hp : s.players[key]? = some p) :
    Tiles time c.scenes ∧ (TicksOnTile react key c time s ↔
      ∃ rate, (s.playerFps p).toFloat? = .ok rate ∧ (time * rate).isFinite = true) := by
  have htiles := Resolution.compose_tiles hc himplicit hnumbered htime
  obtain ⟨_, ⟨q, hq, hcomposition, rfl⟩, hfits⟩ := hplays.fits hobliging.aloof
  obtain rfl := Option.some.inj (hq.symm.trans hp)
  refine ⟨htiles, ?_⟩
  rw [← Number.frameAt_ok_iff]
  constructor
  · rintro ⟨s', p', hrun, -⟩
    rw [handleTick_eq hobliging.aloof hp] at hrun
    obtain ⟨frame, s₁, hframe, -⟩ := ok_of_bind hrun
    exact ⟨frame, (ofArith_ok hframe).1⟩
  · rintro ⟨frame, hframe⟩
    rw [← hcomposition] at hfits
    obtain ⟨s', hrun, hp'⟩ := handleTick_obliged hobliging hp hfits hframe
    have hactive : (q.withMemory (q.composition.ticked time q.memory)).activeScene =
        (scenesAt time c.scenes).getLast?.map Scene.id := by
      rw [← activeAmong_eq, ← hcomposition]
      rfl
    refine ⟨s', _, hrun, hp', fun hlasts => ?_, fun hover => ?_⟩
    · obtain ⟨scene, hscene⟩ := htiles.1 hlasts
      refine ⟨scene, hscene, ?_⟩
      rw [hactive, hscene]
      rfl
    · have hnone := htiles.2 hover
      refine ⟨hnone, ?_⟩
      rw [hactive, hnone]
      rfl

/-- A scene that ends, an open one, another one that ends, and a last one that is open. -/
def reel : Element where
  tag := "vml"
  attributes := [("id", "reel")]
  children := [
    { tag := "scene", attributes := [("id", "intro"), ("duration", "2")] },
    { tag := "scene", attributes := [("id", "gap")] },
    { tag := "scene", attributes := [("id", "talk"), ("end", "prev.start + 3")] },
    { tag := "scene", attributes := [("id", "outro")] }]

/-- A player that is new. -/
def screening (c : Composition Float) : Stage Float Unit (List (Unit × PlayerEvent Float)) where
  source := .manual 0 {}
  players := [{ composition := c, options := {}, group := "screening" }]
  outside := []

theorem screening_plays (c : Composition Float) : Plays taking 0 c (screening c) :=
  .fresh ⟨_, rfl, rfl, rfl⟩

theorem reel_implicit : ∀ el ∈ reel.childElements ["scene"], el.get? "start" = none := by decide

/-- What the reel comes to, and that a tick at four can be counted, but not one at a time as large
as they come. -/
theorem reel_composed : ∃ c : Composition Float, Resolution.compose reel = .ok c ∧ c.Numbered ∧
    (∃ rate, c.fps.toFloat? = .ok rate ∧ (4 * rate : Float).isFinite = true) ∧
    isOk (handleTick taking 0 1e308 (screening c)) = false := by
  have hreel : ((Resolution.compose reel).toOption.any fun c : Composition Float =>
      decide c.Numbered &&
      (c.fps.toFloat?.toOption.any fun rate => (4 * rate : Float).isFinite) &&
      !isOk (handleTick taking 0 1e308 (screening c))) = true := by
    decide +kernel
  obtain ⟨c, hc, hparts⟩ := exists_ok_of_any hreel
  rw [Bool.and_eq_true, Bool.and_eq_true, Bool.not_eq_true'] at hparts
  obtain ⟨⟨hnumbered, hrate⟩, hbeyond⟩ := hparts
  exact ⟨c, hc, of_decide_eq_true hnumbered, exists_ok_of_any hrate, hbeyond⟩

theorem ticksOnTile_reel : ∃ c : Composition Float, Resolution.compose reel = .ok c ∧
    (∀ el ∈ reel.childElements ["scene"], el.get? "start" = none) ∧ c.Numbered ∧
    (0 : Float) ≤ 4 ∧ Plays taking 0 c (screening c) ∧ Tiles 4 c.scenes ∧
    TicksOnTile taking 0 c 4 (screening c) := by
  obtain ⟨c, hc, hnumbered, hrate, -⟩ := reel_composed
  have htime : (0 : Float) ≤ 4 := by decide +kernel
  have hplays := screening_plays c
  obtain ⟨htiles, htick⟩ := ticksOnTile_iff (taking_attending 0).obliging hc reel_implicit
    hnumbered htime hplays rfl
  exact ⟨c, hc, reel_implicit, hnumbered, htime, hplays, htiles, htick.mpr hrate⟩

/-- At a time as large as they come the last scene goes on, but no tick gets there. -/
theorem ticksOnTile_beyond : ∃ c : Composition Float, Resolution.compose reel = .ok c ∧
    (∀ el ∈ reel.childElements ["scene"], el.get? "start" = none) ∧ c.Numbered ∧
    (0 : Float) ≤ 1e308 ∧ Plays taking 0 c (screening c) ∧
    ¬ TicksOnTile taking 0 c 1e308 (screening c) := by
  obtain ⟨c, hc, hnumbered, -, hbeyond⟩ := reel_composed
  refine ⟨c, hc, reel_implicit, hnumbered, by decide +kernel, screening_plays c, ?_⟩
  rintro ⟨s', p, hrun, -⟩
  rw [hrun] at hbeyond
  cases hbeyond

end Cuesheet.Stage
