import Cuesheet.Proofs.Stage.Rebinding
import Cuesheet.Proofs.Stage.Visibility

/-!
# Ticks tell edges

What a player remembers after some ticks depends on the latest of them only, as far as scenes and
cues go, and for the place of a component on the last tick that looked at it (`scene_run`,
`contains_run`, `shows_run`). So what a tick tells is the difference between what was active then
and what is active now, in a fixed order (`turns_run`).
-/

namespace Cuesheet

variable {T : Type} [TimeScalar T]

/-! ## Active scenes -/

/-- Of some scenes, those whose window holds a time, in order. -/
def scenesAt (time : T) : List (Scene T) → List (Scene T)
  | [] => []
  | scene :: rest =>
    if inWindow scene.start (scene.boundary rest.head?) time then scene :: scenesAt time rest
    else scenesAt time rest

theorem activeAmong_eq (time : T) (scenes : List (Scene T)) :
    activeAmong time scenes = (scenesAt time scenes).getLast? := by
  induction scenes with
  | nil => rfl
  | cons scene rest ih =>
      rw [activeAmong, scenesAt, ih]
      by_cases hin : inWindow scene.start (scene.boundary rest.head?) time = true
      · rw [if_pos hin, if_pos hin, List.getLast?_cons]
        cases (scenesAt time rest).getLast? <;> rfl
      · rw [if_neg hin, if_neg hin]
        cases (scenesAt time rest).getLast? <;> rfl

namespace Composition

variable (c : Composition T)

/-! ## What was active at the latest tick -/

/-- The last scene in order that was active at the latest of some ticks, which comes first. -/
def sceneAt : List T → Option String
  | [] => none
  | time :: _ => (scenesAt time c.scenes).getLast?.map Scene.id

/-- Whether a cue was active at the latest of some ticks. -/
def cueAt (x : String) : List T → Bool
  | [] => false
  | time :: _ => c.cueActive time x

/-- Whether what stands at a place was visible when a tick last looked at it. -/
def visibleAt (place : ComponentKey) (times : List T) : Bool :=
  match c.lastLook place times with
  | some (time, component) => component.isVisible time
  | none => false

/-! ## Edges -/

/-- A component that comes into view or goes out of it. -/
def visibilityEdge (time : T) (was : ComponentKey → Bool)
    (entry : ComponentKey × TimedComponent T) : Option Occurrence :=
  if entry.2.isVisible time = was entry.1 then none
  else some (.visibility entry.1.1 entry.2.id (entry.2.isVisible time))

/-- A cue that becomes active or ceases to be. -/
def cueEdge (time : T) (was : String → Bool) (cue : TimedCue T) : Option Occurrence :=
  if cue.isActive time = was cue.id then none
  else some (if cue.isActive time then .cueStart cue.id else .cueEnd cue.id)

variable (earlier : List T) (time : T)

/-- The end of the scene that was active and the start of the one that is, if they differ. -/
def sceneEdges : List Occurrence :=
  if c.sceneAt (time :: earlier) = c.sceneAt earlier then []
  else (c.sceneAt earlier).toList.map .sceneEnd ++
    (c.sceneAt (time :: earlier)).toList.map .sceneStart

/-- What a tick at a time is to tell after earlier ticks, in order: the components of the active
scene that change, the tick, the cues that change, and the change of scene. -/
def edges (fps : Number) : List Occurrence :=
  (c.placed time).filterMap (visibilityEdge time fun place => c.visibleAt place earlier) ++
    .tick fps ::
      (c.timedCues.filterMap (cueEdge time fun x => c.cueAt x earlier) ++
        c.sceneEdges earlier time)

end Composition

/-! ## Turns as differences -/

namespace Memory

variable {m : Memory} {time : T}

theorem componentTurns_told {cs : List (ComponentKey × TimedComponent T)}
    (hnodup : (cs.map Prod.fst).Nodup) :
    (m.componentTurns time cs).map Turn.occurrence =
      cs.filterMap (Composition.visibilityEdge time m.shows) := by
  induction cs generalizing m with
  | nil => rfl
  | cons entry rest ih =>
      obtain ⟨place, component⟩ := entry
      obtain ⟨hfirst, hrest⟩ := List.nodup_cons.mp hnodup
      -- what has changed is not looked at again
      have hothers : rest.filterMap (Composition.visibilityEdge time
          (m.saw time place component).shows) =
          rest.filterMap (Composition.visibilityEdge time m.shows) := by
        refine List.filterMap_congr fun entry hmem => ?_
        have hother : place ≠ entry.1 := by
          rintro rfl
          exact hfirst (List.mem_map.mpr ⟨entry, hmem, rfl⟩)
        unfold Composition.visibilityEdge
        rw [shows_saw, if_neg hother]
      rw [List.filterMap_cons, ← hothers, ← ih hrest]
      unfold saw Composition.visibilityEdge
      rw [componentTurns]
      cases component.isVisible time <;> cases m.shows place <;> rfl

theorem cueTurns_told {cues : List (TimedCue T)} (hnodup : (cues.map TimedCue.id).Nodup) :
    (m.cueTurns time cues).map Turn.occurrence =
      cues.filterMap (Composition.cueEdge time m.cues.contains) := by
  induction cues generalizing m with
  | nil => rfl
  | cons cue rest ih =>
      obtain ⟨hfirst, hrest⟩ := List.nodup_cons.mp hnodup
      -- what has changed is not looked at again
      have hothers : rest.filterMap (Composition.cueEdge time (m.met time cue).cues.contains) =
          rest.filterMap (Composition.cueEdge time m.cues.contains) := by
        refine List.filterMap_congr fun cue' hmem => ?_
        have hother : cue.id ≠ cue'.id := fun hid =>
          hfirst (List.mem_map.mpr ⟨cue', hmem, hid.symm⟩)
        unfold Composition.cueEdge
        rw [contains_met, if_neg hother]
      rw [List.filterMap_cons, ← hothers, ← ih hrest]
      unfold met Composition.cueEdge
      rw [cueTurns]
      cases cue.isActive time <;> cases m.cues.contains cue.id <;> rfl

end Memory

namespace Composition

variable {c : Composition T} {earlier : List T} {time : T} {fps : Number}

theorem activeScene?_eq (c : Composition T) (earlier : List T) (time : T) :
    (c.activeScene? time).map Scene.id = c.sceneAt (time :: earlier) :=
  congrArg (Option.map Scene.id) (activeAmong_eq time c.scenes)

/-- After ticks the scene is remembered that was active at the latest. -/
theorem scene_run (c : Composition T) (earlier : List T) :
    (c.run {} earlier).scene = c.sceneAt earlier := by
  cases earlier with
  | nil => rfl
  | cons time earlier => exact c.activeScene?_eq earlier time

theorem fits_run (c : Composition T) (earlier : List T) : (c.run {} earlier).Fits c := by
  induction earlier with
  | nil => exact Memory.fits_fresh c
  | cons time earlier ih => exact ih.ticked time

/-- After ticks the cues are remembered that were active at the latest. -/
theorem contains_run (h : c.Distinct) (earlier : List T) (x : String) :
    (c.run {} earlier).cues.contains x = c.cueAt x earlier := by
  cases earlier with
  | nil => rfl
  | cons time earlier => exact h.contains_ticked (c.fits_run earlier)

theorem Distinct.mem_ticked {m : Memory} {x : String} (h : c.Distinct) (hm : m.Fits c) :
    x ∈ (c.ticked time m).cues ↔ ∃ cue ∈ c.timedCues, cue.id = x ∧ cue.isActive time = true := by
  rw [← List.contains_iff_mem, h.contains_ticked hm, cueActive, List.any_eq_true]
  simp only [Bool.and_eq_true, beq_iff_eq]

theorem shows_run_fresh (c : Composition T) (earlier : List T) (place : ComponentKey) :
    (c.run {} earlier).shows place = c.visibleAt place earlier := by
  rw [shows_run, visibleAt]
  cases c.lastLook place earlier <;> rfl

/-- After earlier ticks, a tick tells the edges. -/
theorem turns_run (h : c.Distinct) (earlier : List T) (time : T) (fps : Number) :
    (c.turns time fps (c.run {} earlier)).map Turn.occurrence = c.edges earlier time fps := by
  have hvisibility : ((c.run {} earlier).componentTurns time (c.placed time)).map Turn.occurrence =
      (c.placed time).filterMap (visibilityEdge time fun place => c.visibleAt place earlier) := by
    rw [Memory.componentTurns_told (c.placed_nodup time),
      funext fun place => c.shows_run_fresh earlier place]
  have hcues : ((c.looked time (c.run {} earlier)).cueTurns time c.timedCues).map
      Turn.occurrence = c.timedCues.filterMap (cueEdge time fun x => c.cueAt x earlier) := by
    rw [Memory.cueTurns_told h.timedCues, cues_looked, funext fun x => contains_run h earlier x]
  have hscene : ((c.cued time (c.run {} earlier)).sceneTurns
      ((c.activeScene? time).map Scene.id)).map Turn.occurrence = c.sceneEdges earlier time := by
    unfold Memory.sceneTurns sceneEdges
    rw [scene_cued, scene_run, c.activeScene?_eq earlier]
    by_cases hsame : c.sceneAt (time :: earlier) = c.sceneAt earlier
    · rw [if_neg (by simp [hsame]), if_pos hsame]
      rfl
    · rw [if_pos (by simpa using hsame), if_neg hsame, List.map_map]
      exact List.map_id _
  rw [turns, List.map_append, List.map_cons, List.map_append, hvisibility, hcues, hscene]
  rfl

/-! ## What edges are about -/

/-- What an occurrence is about is in the composition. -/
def Knows (c : Composition T) (occurrence : Occurrence) : Prop :=
  ∃ handlers, Player.scopeHandlers c occurrence.scope = .ok handlers

omit [TimeScalar T] in
theorem knows_scene {scene : Scene T} (h : scene ∈ c.scenes) :
    c.Knows (.sceneStart scene.id) ∧ c.Knows (.sceneEnd scene.id) := by
  have hfound : (c.scene? scene.id).isSome = true :=
    List.find?_isSome.mpr ⟨scene, h, beq_self_eq_true _⟩
  obtain ⟨found, hfound⟩ := Option.isSome_iff_exists.mp hfound
  have hhandlers : Player.scopeHandlers c (.scene scene.id) = .ok found.handlers := by
    rw [Player.scopeHandlers, hfound]
  exact ⟨⟨_, hhandlers⟩, ⟨_, hhandlers⟩⟩

omit [TimeScalar T] in
theorem knows_cue {cue : TimedCue T} (h : cue ∈ c.timedCues) :
    c.Knows (.cueStart cue.id) ∧ c.Knows (.cueEnd cue.id) := by
  obtain ⟨full, hmem, htimed⟩ := List.mem_filterMap.mp h
  obtain ⟨start, -, rfl⟩ := Option.map_eq_some_iff.mp htimed
  have hfound : (c.cue? full.id).isSome = true :=
    List.find?_isSome.mpr ⟨full, hmem, beq_self_eq_true _⟩
  obtain ⟨found, hfound⟩ := Option.isSome_iff_exists.mp hfound
  have hhandlers : Player.scopeHandlers c (.cue full.id) = .ok found.handlers := by
    rw [Player.scopeHandlers, hfound]
  exact ⟨⟨_, hhandlers⟩, ⟨_, hhandlers⟩⟩

theorem knows_sceneAt {x : String} (h : c.sceneAt earlier = some x) :
    c.Knows (.sceneStart x) ∧ c.Knows (.sceneEnd x) := by
  rw [← scene_run] at h
  obtain ⟨scene, hmem, rfl⟩ := (c.fits_run earlier).scene x h
  exact knows_scene hmem

/-- Edges are about what is in the composition. -/
theorem knows_edges {occurrence : Occurrence} (h : occurrence ∈ c.edges earlier time fps) :
    c.Knows occurrence := by
  rcases List.mem_append.mp h with h | h
  · obtain ⟨entry, -, heq⟩ := List.mem_filterMap.mp h
    unfold visibilityEdge at heq
    split at heq
    · cases heq
    · cases heq
      exact ⟨_, rfl⟩
  rcases List.mem_cons.mp h with rfl | h
  · exact ⟨_, rfl⟩
  rcases List.mem_append.mp h with h | h
  · obtain ⟨cue, hmem, heq⟩ := List.mem_filterMap.mp h
    unfold cueEdge at heq
    split at heq
    · cases heq
    · obtain rfl := Option.some.inj heq
      split
      · exact (knows_cue hmem).1
      · exact (knows_cue hmem).2
  · unfold sceneEdges at h
    split at h
    · cases h
    · rcases List.mem_append.mp h with h | h
      · obtain ⟨x, hx, rfl⟩ := List.mem_map.mp h
        exact (knows_sceneAt (Option.mem_toList.mp hx)).2
      · obtain ⟨x, hx, rfl⟩ := List.mem_map.mp h
        exact (knows_sceneAt (Option.mem_toList.mp hx)).1

/-- So are turns, if what is remembered before them is. -/
theorem knows_turns {m : Memory} (hm : m.Fits c) {turn : Turn} (h : turn ∈ c.turns time fps m) :
    c.Knows turn.occurrence := by
  rcases mem_turns.mp (List.mem_map_of_mem h) with h | h | h | h
  · have hkind := Memory.kind_componentTurns h
    cases hoccurrence : turn.occurrence with
    | visibility => exact ⟨_, rfl⟩
    | _ => rw [hoccurrence] at hkind; cases hkind
  · rw [h]
    exact ⟨_, rfl⟩
  · obtain ⟨cue, hmem, heq | heq⟩ := Memory.exists_of_mem_cueTurns h
    · rw [heq]
      exact (knows_cue hmem).1
    · rw [heq]
      exact (knows_cue hmem).2
  · obtain ⟨-, ⟨x, hx, heq⟩ | ⟨x, hx, heq⟩⟩ := Memory.mem_sceneTurns.mp h
    · rw [scene_cued] at hx
      obtain ⟨scene, hmem, rfl⟩ := hm.scene x hx
      rw [heq]
      exact (knows_scene hmem).2
    · obtain ⟨scene, hscene, rfl⟩ := Option.map_eq_some_iff.mp hx
      rw [heq]
      exact (knows_scene (activeScene?_mem hscene)).1

end Composition

end Cuesheet
