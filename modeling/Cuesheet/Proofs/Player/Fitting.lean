import Cuesheet.Proofs.Player.Turns

/-!
# Memories that fit a composition

A memory *fits* a composition if all that it remembers is there: its scene, its cues and its
places. A fresh memory fits (`fits_fresh`), and ticks keep a memory fitting (`Fits.ticked`). A
player that gets another composition keeps of its memory what fits (`memory_bind`, `fits_kept`).
Ticks remember no place twice (`apart_ticked`), so that what a player says about a component is
what it remembers of some place (`isVisible_iff`).
-/

namespace Cuesheet

variable {T : Type} {c : Composition T} {m : Memory} {x y : String}

/-- What is remembered is there. -/
structure Memory.Fits (m : Memory) (c : Composition T) : Prop where
  scene : ∀ id, m.scene = some id → ∃ scene ∈ c.scenes, scene.id = id
  cues : ∀ id ∈ m.cues, ∃ cue ∈ c.timedCues, cue.id = id
  places : ∀ place ∈ m.visible.keys, place ∈ c.componentKeys

theorem Memory.fits_fresh (c : Composition T) : Memory.Fits {} c where
  scene := nofun
  cues := nofun
  places := nofun

/-- What of a memory fits a composition. -/
def Memory.kept (m : Memory) (c : Composition T) : Memory where
  scene := m.scene.filter fun id => c.scenes.any fun scene => scene.id == id
  cues := m.cues.filter (c.timedCues.map TimedCue.id).contains
  visible := m.visible.filter fun entry => c.componentKeys.contains entry.1

/-- A player that gets another composition keeps of its memory what fits. -/
theorem Player.memory_bind {C : Type} (p : Player T C) (c : Composition T) :
    (p.bind c).memory = p.memory.kept c := rfl

theorem Memory.fits_kept (m : Memory) (c : Composition T) : (m.kept c).Fits c where
  scene id hid := by
    obtain ⟨-, hany⟩ := Option.filter_eq_some_iff.mp hid
    obtain ⟨scene, hmem, heq⟩ := List.any_eq_true.mp hany
    exact ⟨scene, hmem, eq_of_beq heq⟩
  cues id hid := by
    obtain ⟨-, hkept⟩ := List.mem_filter.mp hid
    obtain ⟨cue, hmem, heq⟩ := List.mem_map.mp (List.contains_iff_mem.mp hkept)
    exact ⟨cue, hmem, heq⟩
  places place hplace := by
    obtain ⟨visible, hmem⟩ := Entries.mem_keys.mp hplace
    obtain ⟨-, hkept⟩ := List.mem_filter.mp hmem
    exact List.contains_iff_mem.mp hkept

/-- A scene of a composition is remembered as before. -/
theorem Memory.scene_kept {scene : Scene T} (h : scene ∈ c.scenes) :
    (m.kept c).scene = some scene.id ↔ m.scene = some scene.id := by
  have hany : (c.scenes.any fun s => s.id == scene.id) = true :=
    List.any_eq_true.mpr ⟨scene, h, beq_self_eq_true _⟩
  exact Option.filter_eq_some_iff.trans (and_iff_left hany)

/-- A cue of a composition is remembered as before. -/
theorem Memory.contains_kept {cue : TimedCue T} (h : cue ∈ c.timedCues) :
    (m.kept c).cues.contains cue.id = m.cues.contains cue.id := by
  have hmem : cue.id ∈ c.timedCues.map TimedCue.id := List.mem_map_of_mem h
  rw [Bool.eq_iff_iff, List.contains_iff_mem, List.contains_iff_mem]
  exact List.mem_filter.trans (and_iff_left (List.contains_iff_mem.mpr hmem))

/-- A place of a composition is remembered as before. -/
theorem Memory.shows_kept {place : ComponentKey} (h : place ∈ c.componentKeys) :
    (m.kept c).shows place = m.shows place := by
  unfold shows kept
  rw [Entries.value?_filter, if_pos (List.contains_iff_mem.mpr h)]

theorem Memory.Fits.withPlace (h : m.Fits c) {place : ComponentKey}
    (hplace : place ∈ c.componentKeys) (visible : Bool) :
    Memory.Fits { m with visible := m.visible.put place visible } c := by
  refine ⟨h.scene, h.cues, fun place' hmem => ?_⟩
  rcases Entries.mem_keys_put.mp hmem with hmem | rfl
  · exact h.places place' hmem
  · exact hplace

theorem Memory.Fits.withCue (h : m.Fits c) {cue : TimedCue T} (hcue : cue ∈ c.timedCues) :
    Memory.Fits { m with cues := m.cues ++ [cue.id] } c := by
  refine ⟨h.scene, fun id hid => ?_, h.places⟩
  rcases List.mem_append.mp hid with hid | hid
  · exact h.cues id hid
  · exact ⟨cue, hcue, (List.mem_singleton.mp hid).symm⟩

theorem Memory.Fits.withoutCue (h : m.Fits c) (id : String) :
    Memory.Fits { m with cues := m.cues.filter (· != id) } c :=
  ⟨h.scene, fun id hid => h.cues id (List.mem_of_mem_filter hid), h.places⟩

/-- What is not there is not remembered. -/
theorem Memory.Fits.shows_eq_false (h : m.Fits c) {place : ComponentKey}
    (hplace : place ∉ c.componentKeys) : m.shows place = false := by
  unfold shows
  rw [Entries.value?_eq_none_iff.mpr fun hmem => hplace (h.places place hmem)]
  rfl

theorem Memory.Fits.contains_eq_false (h : m.Fits c) (hx : ∀ cue ∈ c.timedCues, cue.id ≠ x) :
    m.cues.contains x = false := by
  refine Bool.eq_false_iff.mpr fun hcontains => ?_
  obtain ⟨cue, hmem, hid⟩ := h.cues x (List.contains_iff_mem.mp hcontains)
  exact hx cue hmem hid

/-- A player says that a component is visible exactly if it remembers one of its id so. -/
theorem Player.isVisible_iff {C : Type} {p : Player T C} (h : p.visible.keys.Nodup) :
    p.isVisible x y = true ↔
      ∃ place : ComponentKey, place.1 = x ∧ place.2.2 = y ∧ p.memory.shows place = true := by
  have hshows : ∀ place, p.memory.shows place = true ↔ (place, true) ∈ p.visible := by
    intro place
    rw [← Entries.value?_eq_some_iff h]
    unfold Memory.shows
    cases hvalue : p.memory.visible.value? place with
    | none => simp [show p.visible.value? place = none from hvalue]
    | some visible => simp [show p.visible.value? place = some visible from hvalue]
  unfold isVisible
  rw [List.any_eq_true]
  constructor
  · rintro ⟨⟨place, visible⟩, hmem, hmatch⟩
    simp only [Bool.and_eq_true, beq_iff_eq] at hmatch
    obtain ⟨⟨rfl, hx⟩, hy⟩ := hmatch
    exact ⟨place, hx, hy, (hshows place).mpr hmem⟩
  · rintro ⟨place, rfl, rfl, hvisible⟩
    exact ⟨(place, true), (hshows place).mp hvisible, by simp⟩

/-! ## Active scenes -/

variable [TimeScalar T] {time : T}

theorem activeAmong_mem {scenes : List (Scene T)} {scene : Scene T}
    (h : activeAmong time scenes = some scene) : scene ∈ scenes := by
  induction scenes with
  | nil => cases h
  | cons first rest ih =>
      rw [activeAmong] at h
      split at h
      · rename_i later hlater
        cases h
        exact List.mem_cons_of_mem _ (ih hlater)
      · split at h
        · cases h
          exact List.mem_cons_self
        · cases h

namespace Composition

theorem activeScene?_mem {scene : Scene T} (h : c.activeScene? time = some scene) :
    scene ∈ c.scenes := activeAmong_mem h

theorem mem_placed {place : ComponentKey} {component : TimedComponent T} :
    (place, component) ∈ c.placed time ↔
      ∃ scene, c.activeScene? time = some scene ∧
        ∃ i, scene.timedComponents[i]? = some component ∧ place = (scene.id, i, component.id) := by
  unfold placed
  cases c.activeScene? time with
  | none => simp
  | some scene => simp [mem_keyed]

omit [TimeScalar T] in
theorem mem_componentKeys {place : ComponentKey} :
    place ∈ c.componentKeys ↔
      ∃ scene ∈ c.scenes, ∃ i component, scene.timedComponents[i]? = some component ∧
        place = (scene.id, i, component.id) := by
  unfold componentKeys
  rw [List.mem_flatMap]
  simp only [List.mem_map, Prod.exists, exists_and_right, exists_eq_right, mem_keyed, Nat.zero_add]
  constructor
  · rintro ⟨scene, hscene, component, i, hi⟩
    exact ⟨scene, hscene, i, component, hi⟩
  · rintro ⟨scene, hscene, i, component, hi⟩
    exact ⟨scene, hscene, component, i, hi⟩

theorem componentKeys_of_placed {place : ComponentKey} {component : TimedComponent T}
    (h : (place, component) ∈ c.placed time) : place ∈ c.componentKeys := by
  obtain ⟨scene, hscene, i, hi, rfl⟩ := mem_placed.mp h
  exact mem_componentKeys.mpr ⟨scene, activeScene?_mem hscene, i, component, hi, rfl⟩

end Composition

/-! ## Ticks -/

theorem Memory.Fits.saw (h : m.Fits c) {place : ComponentKey} {component : TimedComponent T}
    (hplace : place ∈ c.componentKeys) : (m.saw time place component).Fits c := by
  unfold Memory.saw
  split
  · exact h.withPlace hplace _
  · exact h

theorem Memory.Fits.met (h : m.Fits c) {cue : TimedCue T} (hcue : cue ∈ c.timedCues) :
    (m.met time cue).Fits c := by
  unfold Memory.met
  split
  · exact h.withCue hcue
  · split
    · exact h.withoutCue _
    · exact h

theorem Memory.Fits.withScene (h : m.Fits c) (time : T) :
    Memory.Fits { m with scene := (c.activeScene? time).map Scene.id } c := by
  refine ⟨fun id hid => ?_, h.cues, h.places⟩
  obtain ⟨scene, hscene, rfl⟩ := Option.map_eq_some_iff.mp hid
  exact ⟨scene, Composition.activeScene?_mem hscene, rfl⟩

theorem Composition.apart_ticked (h : m.visible.keys.Nodup) (time : T) :
    (c.ticked time m).visible.keys.Nodup := by
  have hlooked : (c.looked time m).visible.keys.Nodup := by
    refine Memory.componentTurns_keeps (I := fun m => m.visible.keys.Nodup) ?_ h
    intro m place component _ hm
    unfold Memory.saw
    split
    · exact Entries.nodup_keys_put hm
    · exact hm
  have hvisible : (c.ticked time m).visible = (c.looked time m).visible :=
    Memory.visible_cueTurns time _ _
  rw [hvisible]
  exact hlooked

/-- At a tick, whatever is remembered between two turns fits. -/
theorem Memory.Fits.turns (h : m.Fits c) (time : T) (fps : Number) :
    ∀ turn ∈ c.turns time fps m, turn.memory.Fits c := by
  have hlooks : ∀ turn ∈ m.componentTurns time (c.placed time), turn.memory.Fits c :=
    Memory.componentTurns_all (I := fun m => m.Fits c) (fun _ place component hmem hm =>
      hm.saw (Composition.componentKeys_of_placed hmem)) h
  have hlooked : (c.looked time m).Fits c := Turn.last_of_all (I := fun m => m.Fits c) h hlooks
  have hmeets : ∀ turn ∈ (c.looked time m).cueTurns time c.timedCues, turn.memory.Fits c :=
    Memory.cueTurns_all (I := fun m => m.Fits c) (fun _ cue hmem hm => hm.met hmem) hlooked
  have hcued : (c.cued time m).Fits c := Turn.last_of_all (I := fun m => m.Fits c) hlooked hmeets
  intro turn hturn
  rcases List.mem_append.mp hturn with hturn | hturn
  · exact hlooks turn hturn
  rcases List.mem_cons.mp hturn with rfl | hturn
  · exact hlooked
  rcases List.mem_append.mp hturn with hturn | hturn
  · exact hmeets turn hturn
  rw [Memory.memory_sceneTurns hturn]
  exact hcued.withScene time

/-- A tick keeps a memory fitting. -/
theorem Memory.Fits.ticked (h : m.Fits c) (time : T) : (c.ticked time m).Fits c := by
  rw [← Composition.last_turns c time (.int 0)]
  exact Turn.last_of_all (I := fun m => m.Fits c) h (h.turns time _)

end Cuesheet
