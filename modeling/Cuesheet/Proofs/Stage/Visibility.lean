import Cuesheet.Proofs.Player.Fitting
import Cuesheet.Proofs.Stage.Turning

/-!
# What a player says is visible

A tick looks at the components of the active scene only, so a player that has ticked remembers of
every place what it was at the last tick that looked at it (`shows_run`). What it says is visible
is what is visible now exactly if nothing was left behind visible, unless something else of that
name is visible now (`isVisible_iff_shown_iff`). Where no two scenes have one id there is nothing
else, and nothing may have been left behind visible at all (`isVisible_iff_shown_iff_notLeft`).
-/

namespace Cuesheet

namespace Composition

variable {T : Type} [TimeScalar T] (c : Composition T)

/-- A scene is active and a timed component of it is in its window. -/
def Shown (time : T) (x y : String) : Prop :=
  ∃ scene, c.activeScene? time = some scene ∧ scene.id = x ∧
    ∃ component ∈ scene.timedComponents, component.id = y ∧ component.isVisible time = true

/-- The memory after ticks at some times, the latest first. -/
def run (m : Memory) : List T → Memory
  | [] => m
  | time :: earlier => c.ticked time (run m earlier)

/-- The last tick that looked at a place, and what stood there; the latest tick comes first. -/
def lastLook (place : ComponentKey) : List T → Option (T × TimedComponent T)
  | [] => none
  | time :: earlier =>
    match Entries.value? (c.placed time) place with
    | some component => some (time, component)
    | none => lastLook place earlier

/-- A component of a scene that was visible at some place when that was last looked at. -/
def LastSeen (times : List T) (x y : String) : Prop :=
  ∃ place time component, c.lastLook place times = some (time, component) ∧
    place.1 = x ∧ place.2.2 = y ∧ component.isVisible time = true

/-- A place that was visible when it was last looked at, and is not looked at by the latest
tick. -/
def LeftVisible (times : List T) (place : ComponentKey) : Prop :=
  ∃ time component, c.lastLook place times = some (time, component) ∧
    component.isVisible time = true ∧
    ∀ latest ∈ times.head?, place ∉ (c.placed latest).map Prod.fst

variable {c} {m : Memory} {time : T} {times : List T} {place : ComponentKey} {x y : String}
  {component : TimedComponent T}

theorem shown_iff : c.Shown time x y ↔
    ∃ place component, (place, component) ∈ c.placed time ∧ place.1 = x ∧ place.2.2 = y ∧
      component.isVisible time = true := by
  constructor
  · rintro ⟨scene, hactive, rfl, component, hmem, rfl, hvisible⟩
    obtain ⟨i, hi⟩ := List.mem_iff_getElem?.mp hmem
    exact ⟨_, component, mem_placed.mpr ⟨scene, hactive, i, hi, rfl⟩, rfl, rfl, hvisible⟩
  · rintro ⟨place, component, hmem, rfl, rfl, hvisible⟩
    obtain ⟨scene, hactive, i, hi, rfl⟩ := mem_placed.mp hmem
    exact ⟨scene, hactive, rfl, component, List.mem_of_getElem? hi, rfl, hvisible⟩

/-- After ticks, a place is remembered as it was when it was last looked at. -/
theorem shows_run (c : Composition T) (m : Memory) (times : List T) (place : ComponentKey) :
    (c.run m times).shows place =
      match c.lastLook place times with
      | some (time, component) => component.isVisible time
      | none => m.shows place := by
  induction times with
  | nil => rfl
  | cons time earlier ih =>
      rw [run, lastLook]
      cases hlook : Entries.value? (c.placed time) place with
      | some component => exact shows_ticked_of_mem (Entries.mem_of_value? hlook)
      | none => rw [shows_ticked_of_notMem (Entries.value?_eq_none_iff.mp hlook), ih]

theorem lastLook_mem (h : c.lastLook place times = some (time, component)) :
    time ∈ times ∧ (place, component) ∈ c.placed time := by
  induction times with
  | nil => cases h
  | cons latest earlier ih =>
      rw [lastLook] at h
      split at h
      · rename_i component' hlook
        cases h
        exact ⟨List.mem_cons_self, Entries.mem_of_value? hlook⟩
      · obtain ⟨htime, hmem⟩ := ih h
        exact ⟨List.mem_cons_of_mem _ htime, hmem⟩

/-- What was visible when last looked at is what is visible now exactly if all that was left behind
visible is visible now under another place. -/
theorem lastSeen_iff_shown_iff :
    (∀ x y, c.LastSeen (time :: times) x y ↔ c.Shown time x y) ↔
      ∀ place, c.LeftVisible (time :: times) place → c.Shown time place.1 place.2.2 := by
  constructor
  · rintro hall place ⟨time', component, hlook, hvisible, -⟩
    exact (hall _ _).mp ⟨place, time', component, hlook, rfl, rfl, hvisible⟩
  · intro hleft x y
    constructor
    · rintro ⟨place, time', component, hlook, rfl, rfl, hvisible⟩
      -- either the latest tick looked at the place, or what it shows was left behind
      cases hnow : Entries.value? (c.placed time) place with
      | some component' =>
          rw [lastLook, hnow] at hlook
          cases hlook
          exact shown_iff.mpr ⟨place, component, Entries.mem_of_value? hnow, rfl, rfl, hvisible⟩
      | none =>
          refine hleft place ⟨time', component, hlook, hvisible, ?_⟩
          rintro _ ⟨⟩
          exact Entries.value?_eq_none_iff.mp hnow
    · intro hshown
      obtain ⟨place, component, hmem, hx, hy, hvisible⟩ := shown_iff.mp hshown
      refine ⟨place, time, component, ?_, hx, hy, hvisible⟩
      rw [lastLook, (Entries.value?_eq_some_iff (c.placed_nodup time)).mpr hmem]

theorem apart_run (h : m.visible.keys.Nodup) (times : List T) :
    (c.run m times).visible.keys.Nodup := by
  induction times with
  | nil => exact h
  | cons time earlier ih => exact apart_ticked ih time

/-- Where no two scenes have one id, what was left behind is not visible now. -/
theorem LeftVisible.not_shown (hscenes : (c.scenes.map Scene.id).Nodup)
    (h : c.LeftVisible (time :: times) place) : ¬ c.Shown time place.1 place.2.2 := by
  rintro ⟨scene, hactive, hid, -⟩
  obtain ⟨time', component, hlook, -, hleft⟩ := h
  obtain ⟨scene', hactive', i, hi, hplace⟩ := mem_placed.mp (lastLook_mem hlook).2
  have hsame : scene = scene' :=
    List.inj_on_of_nodup_map hscenes (activeScene?_mem hactive) (activeScene?_mem hactive')
      (hid.trans (congrArg Prod.fst hplace))
  subst hsame
  refine hleft time rfl (List.mem_map.mpr ⟨(place, component), ?_, rfl⟩)
  exact mem_placed.mpr ⟨scene, hactive, i, hi, hplace⟩

end Composition

namespace Stage

variable {T C W : Type} [TimeScalar T] {react : React T C W} {key : Nat} {c : Composition T}
  {m : Memory} {s s' : Stage T C W} {p p' : Player T C} {time : T} {times : List T}

/-- A stage comes to another one through ticks of a player at some times, the latest first, that
nobody fails at. Between them anything may happen that leaves alone what the player plays and
remembers. -/
inductive Ticks (react : React T C W) (key : Nat) : List T → Stage T C W → Stage T C W → Prop
  | nil (s : Stage T C W) : Ticks react key [] s s
  | tick {time : T} {earlier : List T} {s s₁ s₂ : Stage T C W}
      (before : Ticks react key earlier s s₁) (run : handleTick react key time s₁ = .ok () s₂) :
      Ticks react key (time :: earlier) s s₂
  | between {times : List T} {s s₁ s₂ : Stage T C W} (before : Ticks react key times s s₁)
      (same : Undisturbed key s₁ s₂) : Ticks react key times s s₂

theorem Ticks.recalls (haloof : Aloof react key) (h : Ticks react key times s s')
    (hs : Recalls key c m s) : Recalls key c (c.run m times) s' := by
  induction h with
  | nil => exact hs
  | tick _ run ih => exact handleTick_recalls haloof (ih hs) run
  | between _ same ih => exact same _ _ (ih hs)

/-- What a player says is visible is what was visible when its place was last looked at. -/
theorem Ticks.isVisible_iff (haloof : Aloof react key) (h : Ticks react key times s s')
    (hp : s.players[key]? = some p) (hfresh : p.visible = []) (hp' : s'.players[key]? = some p')
    (x y : String) : p'.isVisible x y = true ↔ p.composition.LastSeen times x y := by
  have hrun := h.recalls haloof (recalls_of_players hp)
  obtain ⟨q, hq, -, hmemory⟩ := hrun
  obtain rfl := Option.some.inj (hq.symm.trans hp')
  have hnothing : p.memory.visible = [] := hfresh
  have happart : q.memory.visible.keys.Nodup := by
    rw [hmemory]
    refine Composition.apart_run ?_ times
    rw [hnothing]
    exact List.nodup_nil
  rw [Player.isVisible_iff happart, hmemory]
  simp only [Composition.shows_run]
  constructor
  · rintro ⟨place, hx, hy, hshows⟩
    cases hlook : p.composition.lastLook place times with
    | none =>
        rw [hlook] at hshows
        unfold Memory.shows at hshows
        rw [hnothing] at hshows
        cases hshows
    | some look =>
        rw [hlook] at hshows
        exact ⟨place, look.1, look.2, hlook, hx, hy, hshows⟩
  · rintro ⟨place, time, component, hlook, hx, hy, hvisible⟩
    refine ⟨place, hx, hy, ?_⟩
    rw [hlook]
    exact hvisible

/-- After ticks, what a player says is visible is what is visible at the latest of them exactly if
all that was left behind visible is visible now under another place. -/
theorem isVisible_iff_shown_iff (haloof : Aloof react key)
    (h : Ticks react key (time :: times) s s') (hp : s.players[key]? = some p)
    (hfresh : p.visible = []) (hp' : s'.players[key]? = some p') :
    (∀ x y, p'.isVisible x y = true ↔ p.composition.Shown time x y) ↔
      ∀ place, p.composition.LeftVisible (time :: times) place →
        p.composition.Shown time place.1 place.2.2 := by
  rw [← Composition.lastSeen_iff_shown_iff]
  simp only [h.isVisible_iff haloof hp hfresh hp']

/-! ## A box in the first of two scenes -/

/-- A box for all of the first scene, and another scene. -/
def twoScenes : Composition Rat := film [take "a" 0 2 [box "b" 0 2], take "z" 2 4 []]

theorem twoScenes_ticked : handleTick still 0 1 (alone twoScenes) =
    .ok () (after (handleTick still 0 1) (alone twoScenes)) := ok_after (by decide +kernel)

/-- After the first tick of a player all is as it says. -/
theorem twoScenes_inside : ∃ s' p', Ticks still 0 [1] (alone twoScenes) s' ∧
    s'.players[0]? = some p' ∧ ∀ x y, p'.isVisible x y = true ↔ twoScenes.Shown 1 x y := by
  have hticks := Ticks.tick (.nil (alone twoScenes)) twoScenes_ticked
  obtain ⟨p', hp', -⟩ := hticks.recalls (still_aloof 0) (recalls_of_players (p := _) rfl)
  refine ⟨_, p', hticks, hp', (isVisible_iff_shown_iff (still_aloof 0) hticks rfl rfl hp').mpr ?_⟩
  rintro place ⟨time, component, hlook, -, hleft⟩
  obtain ⟨htime, hmem⟩ := Composition.lastLook_mem hlook
  rw [List.mem_singleton.mp htime] at hmem
  exact absurd (List.mem_map.mpr ⟨_, hmem, rfl⟩) (hleft 1 rfl)

/-- The box goes out of view with its scene, but the player says otherwise. -/
theorem twoScenes_later : ∃ s' p', Ticks still 0 [3, 1] (alone twoScenes) s' ∧
    s'.players[0]? = some p' ∧ ¬ ∀ x y, p'.isVisible x y = true ↔ twoScenes.Shown 3 x y := by
  have hsecond : handleTick still 0 3 (after (handleTick still 0 1) (alone twoScenes)) =
      .ok () (after (handleTick still 0 3) (after (handleTick still 0 1) (alone twoScenes))) :=
    ok_after (by decide +kernel)
  have hticks := Ticks.tick (.tick (.nil (alone twoScenes)) twoScenes_ticked) hsecond
  obtain ⟨p', hp', -⟩ := hticks.recalls (still_aloof 0) (recalls_of_players (p := _) rfl)
  refine ⟨_, p', hticks, hp', fun hall => ?_⟩
  have hsays : ((after (handleTick still 0 3) (after (handleTick still 0 1)
      (alone twoScenes))).players[0]?).map (·.isVisible "a" "b") = some true := by decide +kernel
  rw [hp'] at hsays
  obtain ⟨scene, hactive, hid, -⟩ := (hall "a" "b").mp (Option.some.inj hsays)
  have hother : (twoScenes.activeScene? 3).map Scene.id = some "z" := by decide +kernel
  rw [hactive, Option.map_some, hid] at hother
  exact absurd hother (by decide)

/-! ## Scenes of different ids -/

/-- With scenes of different ids, nothing may have been left behind visible. -/
theorem isVisible_iff_shown_iff_notLeft (haloof : Aloof react key)
    (h : Ticks react key (time :: times) s s') (hp : s.players[key]? = some p)
    (hfresh : p.visible = []) (hp' : s'.players[key]? = some p')
    (hscenes : (p.composition.scenes.map Scene.id).Nodup) :
    (∀ x y, p'.isVisible x y = true ↔ p.composition.Shown time x y) ↔
      ∀ place, ¬ p.composition.LeftVisible (time :: times) place := by
  simp only [h.isVisible_iff haloof hp hfresh hp']
  rw [Composition.lastSeen_iff_shown_iff]
  constructor
  · exact fun hall place hleft => hleft.not_shown hscenes (hall place hleft)
  · exact fun hnone place hleft => absurd hleft (hnone place)

end Stage

end Cuesheet
