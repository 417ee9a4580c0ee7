import Cuesheet.Proofs.Player.Edges
import Cuesheet.Proofs.Resolution.Formed

/-!
# Scenes tile the timeline

Where no scene says when it starts, each one starts where the one before hands over: at its end,
or with it if it is open (`compose_chained`). That is also where the window of a scene ends that
is not the last one, so that from zero on the windows have no gaps and do not overlap
(`Chained.tiles`). An open scene in the middle has an empty window, as one of no duration has.
-/

namespace Cuesheet

variable {T : Type} {c : Composition Float} {scene : Scene Float} {rest : List (Scene Float)}
  {time : Float}

/-- When the next scene starts if it does not say so. -/
def Scene.handover (scene : Scene T) : T := scene.stop.getD scene.start

/-! ## Windows -/

/-- Scenes each of which starts where the one before hands over, and hands over no earlier. -/
structure Chained (scenes : List (Scene Float)) : Prop where
  follow : scenes.IsChain fun scene next => next.start = scene.handover
  forward : ∀ scene ∈ scenes, TimeScalar.le scene.start scene.handover = true

/-- Whether the last of some scenes is not over at a time. -/
def Lasts (time : Float) (scenes : List (Scene Float)) : Prop :=
  ∀ last ∈ scenes.getLast?, ∀ stop ∈ last.stop, time < stop

/-- Just one of some scenes has a window that holds a time, or none has once the last is over. -/
def Tiles (time : Float) (scenes : List (Scene Float)) : Prop :=
  (Lasts time scenes → ∃ scene, scenesAt time scenes = [scene]) ∧
    (¬ Lasts time scenes → scenesAt time scenes = [])

theorem lasts_singleton :
    Lasts time [scene] ↔ (scene.stop.all fun stop => TimeScalar.lt time stop) = true := by
  rw [Option.all_eq_true]
  constructor
  · exact fun h stop hstop => decide_eq_true (h scene rfl stop hstop)
  · rintro h _ ⟨⟩ stop hstop
    exact of_decide_eq_true (h stop hstop)

theorem lasts_cons_cons {next : Scene Float} :
    Lasts time (scene :: next :: rest) ↔ Lasts time (next :: rest) := by
  rw [Lasts, List.getLast?_cons_cons, Lasts]

theorem scenesAt_cons_of_window (h : inWindow scene.start (scene.boundary rest.head?) time = true) :
    scenesAt time (scene :: rest) = scene :: scenesAt time rest := if_pos h

theorem scenesAt_cons_of_not_window
    (h : inWindow scene.start (scene.boundary rest.head?) time = false) :
    scenesAt time (scene :: rest) = scenesAt time rest := if_neg (Bool.eq_false_iff.mp h)

theorem inWindow_eq_false_of_early {boundary : Option Float}
    (h : TimeScalar.lt time scene.start = true) : inWindow scene.start boundary time = false := by
  rw [inWindow, Number.le_eq_false_of_lt h, Bool.false_and]

namespace Chained

theorem tail (h : Chained (scene :: rest)) : Chained rest where
  follow := h.follow.tail
  forward other hmem := h.forward other (List.mem_cons_of_mem _ hmem)

/-- A scene that is not the last one is over where it hands over. -/
theorem boundary {next : Scene Float} (h : Chained (scene :: next :: rest)) :
    scene.boundary (some next) = some next.start := by
  obtain ⟨hnext, -⟩ := List.isChain_cons_cons.mp h.follow
  cases hstop : scene.stop with
  | some stop => rw [hnext, Scene.boundary, Scene.handover, hstop]; rfl
  | none => rw [Scene.boundary, hstop]; rfl

theorem start_le_next {next : Scene Float} (h : Chained (scene :: next :: rest)) :
    TimeScalar.le scene.start next.start = true := by
  rw [(List.isChain_cons_cons.mp h.follow).1]
  exact h.forward scene List.mem_cons_self

/-- Before the first scene none is active, and the last one is still to come. -/
theorem early (h : Chained (scene :: rest)) (hearly : TimeScalar.lt time scene.start = true) :
    Lasts time (scene :: rest) ∧ scenesAt time (scene :: rest) = [] := by
  induction rest generalizing scene with
  | nil =>
      refine ⟨lasts_singleton.mpr ?_, ?_⟩
      rotate_left
      · exact scenesAt_cons_of_not_window (inWindow_eq_false_of_early hearly)
      rw [Option.all_eq_true]
      intro stop hstop
      have hle := h.forward scene List.mem_cons_self
      rw [Scene.handover, hstop] at hle
      exact Number.lt_of_lt_of_le hearly hle
  | cons next rest ih =>
      obtain ⟨hlasts, hnone⟩ := ih h.tail (Number.lt_of_lt_of_le hearly h.start_le_next)
      refine ⟨lasts_cons_cons.mpr hlasts, ?_⟩
      rw [scenesAt_cons_of_not_window (inWindow_eq_false_of_early hearly), hnone]

/-- From the start of the first scene on, the windows have no gaps and do not overlap. -/
theorem tiles (h : Chained (scene :: rest)) (hfrom : TimeScalar.le scene.start time = true) :
    Tiles time (scene :: rest) := by
  induction rest generalizing scene with
  | nil =>
      have hwindow : inWindow scene.start (scene.boundary [].head?) time =
          scene.stop.all fun stop => TimeScalar.lt time stop := by
        rw [inWindow, hfrom, Bool.true_and]
        unfold Scene.boundary
        cases scene.stop <;> rfl
      unfold Tiles
      rw [lasts_singleton, ← hwindow, Bool.not_eq_true]
      exact ⟨fun hin => ⟨scene, scenesAt_cons_of_window hin⟩, scenesAt_cons_of_not_window⟩
  | cons next rest ih =>
      have hwindow : inWindow scene.start (scene.boundary (next :: rest).head?) time =
          TimeScalar.lt time next.start := by
        rw [inWindow, hfrom, Bool.true_and, List.head?_cons, h.boundary]
        rfl
      cases hlt : TimeScalar.lt time next.start with
      | true =>
          obtain ⟨hlasts, hnone⟩ := h.tail.early hlt
          refine ⟨fun _ => ⟨scene, ?_⟩, fun hover => absurd (lasts_cons_cons.mpr hlasts) hover⟩
          rw [scenesAt_cons_of_window (hwindow.trans hlt), hnone]
      | false =>
          obtain ⟨hstart, hnext⟩ := Number.isNaN_of_le h.start_le_next
          obtain ⟨-, htime⟩ := Number.isNaN_of_le hfrom
          have htiles := ih h.tail (Number.le_of_lt_eq_false hnext htime hlt)
          unfold Tiles
          rw [lasts_cons_cons, scenesAt_cons_of_not_window (hwindow.trans hlt)]
          exact htiles

end Chained

/-! ## Resolved scenes -/

/-- The times of all scenes are numbers. -/
def Composition.Numbered (c : Composition Float) : Prop :=
  ∀ scene ∈ c.scenes, scene.start.isNaN = false ∧ ∀ stop ∈ scene.stop, stop.isNaN = false

instance (c : Composition Float) : Decidable c.Numbered :=
  inferInstanceAs (Decidable (∀ scene ∈ c.scenes, scene.start.isNaN = false ∧
    ∀ stop ∈ scene.stop, stop.isNaN = false))

/-- A scene that goes on where the one before hands over. -/
theorem Setting.among_continues [TimeScalar T] {fps : Number} {scale start : T}
    {scenes : List (Scene T)} {index : Nat} {before : Scene T}
    (hbefore : scenes[index]? = some before) :
    (Setting.among fps scale scenes (index + 1)).Continues start ↔ start = before.handover := by
  show (∃ t, scenes[index]?.map Scene.start = some t ∧
    start = (scenes[index]?.bind Scene.stop).getD t) ↔ _
  rw [hbefore]
  exact ⟨fun ⟨_, ht, h⟩ => by cases ht; exact h, fun h => ⟨_, rfl, h⟩⟩

namespace Resolution

theorem compose_scenes_ne_nil [TimeScalar T] {root : Element} {c : Composition T}
    (h : compose root = .ok c) : c.scenes ≠ [] := by
  obtain ⟨hlength, -⟩ := compose_run h
  obtain ⟨-, -, -, board, hboard, -⟩ := compose_parts h
  intro hnil
  rw [hnil] at hlength
  rw [storyboard, List.eq_nil_of_length_eq_zero hlength.symm] at hboard
  cases hboard

/-- Where no scene says when it starts, the first one starts at zero, and they are chained. -/
theorem compose_chained {root : Element} {c : Composition Float} (h : compose root = .ok c)
    (himplicit : ∀ el ∈ root.childElements ["scene"], el.get? "start" = none)
    (hnumbered : c.Numbered) :
    Chained c.scenes ∧ ∀ first ∈ c.scenes.head?, first.start = 0 := by
  have hof : ∀ (index : Nat) (scene : Scene Float), c.scenes[index]? = some scene →
      (Setting.among c.fps root.timeScale c.scenes index).Continues scene.start ∧
        ∀ stop ∈ scene.stop, TimeScalar.lt stop scene.start = false := by
    intro index scene hscene
    obtain ⟨el, hel, -, hrun⟩ := (compose_run h).2 index scene hscene
    have hscene := Attempt.run_of _ hrun
    exact ⟨hscene.start (himplicit el (List.mem_of_getElem? hel)), hscene.stop⟩
  refine ⟨⟨List.isChain_iff_getElem.mpr fun i hi => ?_, fun scene hmem => ?_⟩, ?_⟩
  · obtain ⟨hcontinues, -⟩ := hof (i + 1) _ (List.getElem?_eq_getElem hi)
    exact (Setting.among_continues (List.getElem?_eq_getElem (Nat.lt_of_succ_lt hi))).mp hcontinues
  · obtain ⟨index, hscene⟩ := List.mem_iff_getElem?.mp hmem
    obtain ⟨hstart, hstop⟩ := hnumbered scene hmem
    obtain ⟨-, hforward⟩ := hof index scene hscene
    unfold Scene.handover
    cases hend : scene.stop with
    | none => exact Number.le_refl hstart
    | some stop => exact Number.le_of_lt_eq_false hstart (hstop stop hend) (hforward stop hend)
  · intro first hfirst
    rw [List.head?_eq_getElem?] at hfirst
    obtain ⟨hcontinues, -⟩ := hof 0 first hfirst
    exact hcontinues.trans Number.zero_eq

/-- From zero on, scenes none of which says when it starts tile the time until the last is over. -/
theorem compose_tiles {root : Element} {c : Composition Float} (h : compose root = .ok c)
    (himplicit : ∀ el ∈ root.childElements ["scene"], el.get? "start" = none)
    (hnumbered : c.Numbered) {time : Float} (htime : 0 ≤ time) : Tiles time c.scenes := by
  obtain ⟨hchained, hzero⟩ := compose_chained h himplicit hnumbered
  have hnonempty := compose_scenes_ne_nil h
  cases hscenes : c.scenes with
  | nil => exact absurd hscenes hnonempty
  | cons first rest =>
      rw [hscenes] at hchained hzero
      refine hchained.tiles ?_
      rw [hzero first rfl]
      exact decide_eq_true htime

end Resolution

end Cuesheet
