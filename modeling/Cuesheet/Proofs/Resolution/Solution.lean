import Cuesheet.Proofs.Resolution.Passes
import Cuesheet.Proofs.Time.Exact
import Mathlib

/-!
# Resolved scenes solve their equations, in any order

`Setting.among` is what a scene of a finished resolution would start from if it were tried once
more, with all the others known. Every scene was resolved against less, and `resolve_solves` says
that it comes out the same: it saw whatever it refers to, and what came later was nothing to it.
`resolve_confluent` says that no other order of trying the scenes would have given anything else,
neither where all scenes are resolved nor where some are left.
-/

namespace Cuesheet

variable {T : Type}

/-- What a scene of a finished resolution starts from: what all the others come to. -/
def Setting.among (fps : Number) (scale : T) (scenes : List (Scene T)) (index : Nat) :
    Setting T :=
  let others := scenes.eraseIdx index
  let previous := if index = 0 then none else scenes[index - 1]?
  { known := {
      fps
      sceneStart := fun id => (others.find? fun scene => scene.id == id).map Scene.start
      sceneEnd := fun id => (others.find? fun scene => scene.id == id).bind Scene.stop
      cueStart := fun id => (others.flatMap Scene.cues).findSome? fun cue =>
        if cue.id == id then cue.start else none
      prevStart := previous.map Scene.start
      prevEnd := previous.bind Scene.stop
      nextStart := scenes[index + 1]?.map Scene.start }
    takenCues := others.flatMap fun scene => scene.cues.map Cue.id
    isFirst := index = 0
    scale }

theorem Progress.scenes_set_none : ∀ (scenes : List (Scene T)) (index : Nat),
    Progress.scenes (List.set (scenes.map some) index none) = scenes.eraseIdx index
  | [], _ => rfl
  | s :: rest, 0 => by
      show List.filterMap id (rest.map some) = rest
      rw [List.filterMap_map]
      exact List.filterMap_some
  | s :: rest, index + 1 => by
      show s :: Progress.scenes (List.set (rest.map some) index none) = s :: rest.eraseIdx index
      rw [scenes_set_none rest index]

namespace Storyboard

variable [TimeScalar T] {board : Storyboard T} {scenes : List (Scene T)}

omit [TimeScalar T] in
theorem setting_set_none (board : Storyboard T) (scenes : List (Scene T)) (index : Nat) :
    board.setting (List.set (scenes.map some) index none) index =
      Setting.among board.fps board.scale scenes index := by
  have hprev : (if index = 0 then none
      else Progress.at? (List.set (scenes.map some) index none) (index - 1)) =
      if index = 0 then none else scenes[index - 1]? := by
    split
    · rfl
    · rw [Progress.at?_set_ne (by omega), Progress.at?_map_some]
  have hnext : Progress.at? (List.set (scenes.map some) index none) (index + 1) =
      scenes[index + 1]? := by
    rw [Progress.at?_set_ne (by omega), Progress.at?_map_some]
  unfold setting Setting.among Progress.known Progress.scene? Progress.cueStart? Progress.cueIds
  rw [Progress.scenes_set_none, hprev, hnext]

/-- An attempt at a scene of the storyboard is a run over its element. -/
theorem attempt_eq {progress : Progress T} {index : Nat} {s : Scene T}
    (h : board.attempt progress index = .ok s) :
    ∃ el, board.scenes[index]? = some (s.id, el) ∧
      Attempt.run (board.setting progress index) s.id el = .ok s := by
  have hid := (attempt_spec h).1
  unfold attempt at h
  split at h
  · cases h
  · rename_i id el hel
    rw [hel] at hid
    obtain rfl : id = s.id := Option.some.inj hid
    exact ⟨el, hel, h⟩

/-- Every scene of a resolution is what a run over its element gives against all the others. -/
theorem resolve_run (hd : board.Distinct) (hres : board.resolve = .ok scenes) :
    scenes.length = board.scenes.length ∧
      ∀ (index : Nat) (s : Scene T), scenes[index]? = some s →
        ∃ el, board.scenes[index]? = some (s.id, el) ∧
          Attempt.run (Setting.among board.fps board.scale scenes index) s.id el = .ok s := by
  obtain ⟨order, hsched⟩ := board.resolve_ok hd hres
  have hcons := hsched.consistent hd rfl
  constructor
  · rw [← hcons.of.length, List.length_map]
  · intro index s hs
    have hattempt := hcons.solves ((Progress.at?_map_some scenes index).trans hs)
    rw [← setting_set_none]
    exact attempt_eq hattempt

end Storyboard

/-! ## Solutions -/

namespace Resolution

variable [TimeScalar T] {fps : Number} {root : Element} {board : Storyboard T}

/-- The scenes that a resolution gives solve the equations that their elements state: an attempt
at any of them with all the others known gives it again, whole. -/
theorem resolve_solves {scenes : List (Scene T)} (hboard : storyboard fps root = .ok board)
    (hres : board.resolve = .ok scenes) :
    scenes.length = (root.childElements ["scene"]).length ∧
      ∀ (index : Nat) (s : Scene T), scenes[index]? = some s →
        ∃ el, (root.childElements ["scene"])[index]? = some el ∧ el.get? "id" = some s.id ∧
          Attempt.run (Setting.among fps root.timeScale scenes index) s.id el = .ok s := by
  obtain ⟨rfl, hscale, hd, hels, hids⟩ := storyboard_ok hboard
  obtain ⟨hlength, hruns⟩ := board.resolve_run hd hres
  constructor
  · rw [hlength, ← hels, List.length_map]
  · intro index s hs
    obtain ⟨el, hel, hrun⟩ := hruns index s hs
    refine ⟨el, ?_, hids _ (List.mem_of_getElem? hel), ?_⟩
    · rw [← hels, List.getElem?_map, hel]; rfl
    · rw [← hscale]
      exact hrun

/-- Two scenes, neither of which says when it starts. -/
def followed : Element := {
  tag := "vml"
  children := [
    { tag := "scene"
      attributes := [("id", "intro")]
      children := [{ tag := "cue", attributes := [("id", "hello")] }] },
    { tag := "scene", attributes := [("id", "outro")] }] }

/-- What the two scenes come to: the second one starts where the first one does. -/
def followedScenes : List (Scene Rat) := [
  { id := "intro", title := "intro", start := 0, stop := none
    items := [.cue {
      id := "hello", label := "hello", segments := [], bullets := [], provider := none
      start := none, stop := none, handlers := [] }]
    layers := [], components := [], styles := none, markup := none, handlers := [] },
  { id := "outro", title := "outro", start := 0, stop := none
    items := [], layers := [], components := [], styles := none, markup := none
    handlers := [] }]

theorem followed_resolve : ∃ board : Storyboard Rat,
    storyboard (.int 30) followed = .ok board ∧ board.resolve = .ok followedScenes := by
  refine ⟨{ fps := .int 30, scale := 1, scenes := [
    ("intro", followed.children[0]), ("outro", followed.children[1])] }, rfl, ?_⟩
  cbv

theorem resolve_solves_followed : followedScenes.length = 2 ∧
    ∀ (index : Nat) (s : Scene Rat), followedScenes[index]? = some s →
      ∃ el, (followed.childElements ["scene"])[index]? = some el ∧ el.get? "id" = some s.id ∧
        Attempt.run (Setting.among (.int 30) followed.timeScale followedScenes index) s.id el =
          .ok s := by
  obtain ⟨board, hboard, hres⟩ := followed_resolve
  exact resolve_solves hboard hres

end Resolution

/-! ## Orders of trying -/

namespace Progress

/-- A scene that is there is not among those that are pending. -/
theorem Of.id_notin_pending {board : Storyboard T} {progress : Progress T}
    (h : progress.Of board) (hd : board.Distinct) {index : Nat} {s : Scene T}
    (hs : progress.at? index = some s) : s.id ∉ board.idsAt progress.pending := by
  intro hmem
  obtain ⟨j, hj, hid⟩ := List.mem_filterMap.mp hmem
  have hlt : index < (board.scenes.map (·.1)).length := by
    rw [List.length_map, ← h.length]
    exact lt_length_of_at? hs
  have hij : index = j := by
    refine (List.getElem?_inj hlt hd).mp ?_
    rw [List.getElem?_map, List.getElem?_map, h.id hs, hid]
  obtain ⟨-, hnone⟩ := mem_pending.mp hj
  rw [← hij, hs] at hnone
  cases hnone

end Progress

namespace Resolution

variable [TimeScalar T] {fps : Number} {root : Element} {board : Storyboard T}

/-- The order in which scenes are tried does not matter. Where all of them are resolved, or some
are reported as unresolved, no schedule fails, none gets beyond that, and whoever goes on as long
as a pending scene can be resolved gets there. -/
theorem resolve_confluent (hboard : storyboard fps root = .ok board) :
    (∀ scenes, board.resolve = .ok scenes →
      (∀ order fault, ¬ board.Schedule order (.error fault)) ∧
        ∀ order progress, board.Schedule order (.ok progress) →
          (∀ index s, progress.at? index = some s → scenes[index]? = some s) ∧
            (board.Maximal progress → progress = scenes.map some)) ∧
      ∀ ids, board.resolve = .error (.unresolved ids) →
        (∀ order fault, ¬ board.Schedule order (.error fault)) ∧
          ∀ order progress, board.Schedule order (.ok progress) →
            (∀ s ∈ progress.scenes, s.id ∉ ids) ∧
              (board.Maximal progress → board.idsAt progress.pending = ids) := by
  obtain ⟨-, -, hd, -, -⟩ := storyboard_ok hboard
  have hnofault : ∀ {more : Progress T}, board.Halted more → ∀ order fault,
      ¬ board.Schedule order (.error fault) := by
    intro more hmore order fault hsched
    obtain ⟨progress, heq, -⟩ := hsched.le_halted hmore hd
    cases heq
  constructor
  · intro scenes hres
    obtain ⟨order, hsched⟩ := board.resolve_ok hd hres
    have hhalted : board.Halted (scenes.map some) :=
      ⟨hsched.consistent hd rfl, by rw [Progress.pending_map_some]; simp⟩
    refine ⟨hnofault hhalted, fun order' progress hsched' => ⟨fun index s hs => ?_, ?_⟩⟩
    · obtain ⟨progress', heq, hle⟩ := hsched'.le_halted hhalted hd
      cases heq
      rw [← Progress.at?_map_some]
      exact hle index s hs
    · exact hhalted.eq_of_maximal hd hsched hsched'
  · intro ids hres
    obtain ⟨order, more, hsched, hhalted, rfl⟩ := board.resolve_unresolved hd hres
    refine ⟨hnofault hhalted, fun order' progress hsched' => ⟨fun s hs => ?_, fun hmax => ?_⟩⟩
    · obtain ⟨progress', heq, hle⟩ := hsched'.le_halted hhalted hd
      cases heq
      obtain ⟨index, hindex⟩ := Progress.mem_scenes.mp hs
      exact hhalted.consistent.of.id_notin_pending hd (hle index s hindex)
    · rw [hhalted.eq_of_maximal hd hsched hsched' hmax]

theorem resolve_confluent_followed : ∃ board : Storyboard Rat,
    storyboard (.int 30) followed = .ok board ∧
      ∀ order progress, board.Schedule order (.ok progress) → board.Maximal progress →
        progress = followedScenes.map some := by
  obtain ⟨board, hboard, hres⟩ := followed_resolve
  refine ⟨board, hboard, fun order progress hsched hmax => ?_⟩
  exact (((resolve_confluent hboard).1 _ hres).2 order progress hsched).2 hmax

end Resolution

end Cuesheet
