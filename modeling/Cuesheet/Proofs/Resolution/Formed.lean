import Cuesheet.Proofs.Data.Outcomes
import Cuesheet.Proofs.Number.Doubles
import Cuesheet.Proofs.Resolution.Solution

/-!
# Resolved compositions are well formed

What an attempt checks is true of the scene that it gives (`run_formed`), and every scene of a
composition is what an attempt gives (`resolve_run`). With the ids, which the resolution keeps
apart whatever the order in which scenes are tried, this makes a composition well formed
(`compose_wellFormed`). A scene ends no earlier than it starts as far as the two can be compared:
next to NaN no double is earlier.
-/

namespace Cuesheet

variable {T : Type}

/-! ## Scenes by themselves -/

/-- The cues among some elements. -/
def cueElements (elements : List Element) : List Element :=
  elements.filter fun el => el.tag == "cue"

/-- A cue is that of an element, and has an end only if it has a start. -/
structure Cue.Of (el : Element) (cue : Cue T) : Prop where
  id : el.get? "id" = some cue.id
  started : cue.stop.isSome = true → cue.start.isSome = true

section

variable [TimeScalar T]

/-- A scene that does not say when it starts may start at a time: zero for the first one, else the
end of the scene before, or its start if it is open. -/
def Setting.Continues (setting : Setting T) (start : T) : Prop :=
  if setting.isFirst then start = TimeScalar.zero
  else ∃ before, setting.known.prevStart = some before ∧
    start = setting.known.prevEnd.getD before

/-- What one reads off a scene that comes from an element. -/
structure Scene.Of (setting : Setting T) (el : Element) (scene : Scene T) : Prop where
  start : el.get? "start" = none → setting.Continues scene.start
  stop : ∀ stop ∈ scene.stop, TimeScalar.lt stop scene.start = false
  cues : List.Forall₂ Cue.Of (cueElements el.children) scene.cues

namespace Attempt

variable (setting : Setting T)

theorem cueTimes_spec (el : Element) (id : String) (sceneStart scale : T) (draft : Draft T) :
    Spec (cueTimes setting el id sceneStart scale) draft fun times _ =>
      times.2.isSome = true → times.1.isSome = true := by
  refine (place?_timed setting el "start" sceneStart scale).spec_bind fun start draft₁ _ => ?_
  cases start with
  | none =>
      dsimp only
      split
      · trivial
      · exact nofun
  | some start =>
      have hrest : ∀ (stop : Option T) (draft : Draft T),
          Spec (do noteEnd stop; return (some start, stop) : Attempt T _) draft fun times _ =>
            times.2.isSome = true → times.1.isSome = true :=
        fun stop draft => (noteEnd_timed stop).spec_bind fun _ _ _ _ => rfl
      refine Spec.bind ?_
      refine (place?_timed setting el "end" sceneStart scale).spec_bind fun placed _ _ => ?_
      cases placed with
      | some t => exact hrest (some t) _
      | none =>
          exact (durationEnd?_timed setting el start scale).spec_bind fun stop _ _ => hrest stop _

theorem cue_of (el : Element) (sceneStart scale : T) (place : String) (draft : Draft T) :
    Spec (cue setting el sceneStart scale place) draft fun c _ => Cue.Of el c := by
  unfold cue
  cases hid : el.get? "id" with
  | none => trivial
  | some id =>
      refine Spec.bind ?_
      show Spec (if _ then _ else _) draft _
      split
      · trivial
      · refine Spec.bind ?_
        refine Spec.bind <| (cueTimes_spec setting el id sceneStart scale _).mono ?_
        intro times _ htimes
        exact (cueContent_timed setting place el.children).spec_bind fun _ _ _ => ⟨hid, htimes⟩

theorem sceneContent_cues (start scale : T) (place : String) (children : List Element)
    (draft : Draft T) :
    Spec (sceneContent setting start scale place children) draft fun content _ =>
      List.Forall₂ Cue.Of (cueElements children)
        (content.items.filterMap itemCue?) := by
  refine sceneContent_rule setting
    (fun children _ cues => List.Forall₂ Cue.Of (cueElements children) cues)
    (fun _ => .nil) ?_ ?_ children draft
  · intro child rest draft htag
    refine (cue_of setting child start scale place draft).mono fun c _ hc cues h => ?_
    rw [cueElements, List.filter_cons, if_pos htag]
    exact .cons hc h
  · intro child rest _ _ cues htag _ h
    rw [cueElements, List.filter_cons, if_neg htag]
    exact h

theorem sceneStart_spec (el : Element) (draft : Draft T) :
    Spec (sceneStart setting el) draft fun start _ =>
      el.get? "start" = none → setting.Continues start := by
  unfold sceneStart time?
  cases hstart : el.get? "start" with
  | some raw =>
      refine Spec.bind ?_
      exact (evaluate_timed setting raw).spec_bind fun start _ _ => nofun
  | none =>
      refine Spec.bind ?_
      show Spec (if setting.isFirst = true then _ else _) draft _
      unfold Setting.Continues
      split
      · exact fun _ => rfl
      · cases hbefore : setting.known.prevStart with
        | none => trivial
        | some before => exact fun _ => ⟨before, rfl, rfl⟩

theorem checkEnd_spec (place : String) (start : T) (stop : Option T) (draft : Draft T) :
    Spec (checkEnd place start stop) draft fun _ _ =>
      ∀ t ∈ stop, TimeScalar.lt t start = false := by
  cases stop with
  | none => exact nofun
  | some t =>
      dsimp only [checkEnd]
      split
      · trivial
      · rename_i h
        rintro _ ⟨⟩
        exact Bool.eq_false_iff.mpr h

theorem closeScene_times (id : String) (el : Element) (place : String) (start : T)
    (explicit : Option T) (content : SceneContent T) (draft : Draft T) :
    Spec (closeScene id el place start explicit content) draft fun s _ =>
      s.start = start ∧ s.items = content.items ∧
        ∀ stop ∈ s.stop, TimeScalar.lt stop start = false := by
  refine Spec.bind ?_
  refine Spec.bind <| (checkEnd_spec place start _ draft).mono fun _ _ hend => ?_
  refine (Timed.ofExcept fun _ => map?_ofScene).spec_bind fun styles _ _ => ?_
  exact (Timed.ofExcept fun _ => map?_ofScene).spec_bind fun markup _ _ => ⟨rfl, rfl, hend⟩

theorem scene_of (id : String) (el : Element) :
    Spec (scene setting id el) {} fun s _ => Scene.Of setting el s := by
  refine Spec.bind <| (sceneStart_spec setting el {}).mono fun start _ hstart => Spec.bind ?_
  refine (sceneEnd_timed setting el start _).spec_bind fun explicit draft _ => Spec.bind ?_
  have hnote : Spec (noteSceneEnd id explicit) draft fun _ _ => True := by
    cases explicit <;> trivial
  refine hnote.mono fun _ draft _ => Spec.bind ?_
  refine (sceneContent_cues setting start _ _ el.children draft).mono fun content draft hcues => ?_
  refine (closeScene_times id el _ start explicit content draft).mono ?_
  rintro s _ ⟨rfl, hitems, hend⟩
  rw [← hitems] at hcues
  exact ⟨hstart, hend, hcues⟩

theorem run_of {id : String} {el : Element} {s : Scene T} (h : run setting id el = .ok s) :
    Scene.Of setting el s := by
  unfold run at h
  cases hm : scene setting id el {} with
  | error stop => rw [hm] at h; cases h
  | ok r =>
      rw [hm] at h
      cases h
      exact (scene_of setting id el).ok hm

end Attempt

end

/-! ## Compositions -/

namespace Resolution

/-- The scenes of a composition come from the scene elements of its root, one from each. -/
theorem compose_run [TimeScalar T] {root : Element} {c : Composition T}
    (h : compose root = .ok c) : c.scenes.length = (root.childElements ["scene"]).length ∧
      ∀ (index : Nat) (s : Scene T), c.scenes[index]? = some s →
        ∃ el, (root.childElements ["scene"])[index]? = some el ∧ el.get? "id" = some s.id ∧
          Attempt.run (Setting.among c.fps root.timeScale c.scenes index) s.id el = .ok s := by
  obtain ⟨-, -, -, board, hboard, hres⟩ := compose_parts h
  obtain ⟨hfps, hscale, hd, hels, hids⟩ := storyboard_ok hboard
  obtain ⟨hlength, hruns⟩ := board.resolve_run hd hres
  refine ⟨by rw [hlength, ← hels, List.length_map], fun index s hs => ?_⟩
  obtain ⟨el, hel, hrun⟩ := hruns index s hs
  refine ⟨el, ?_, hids _ (List.mem_of_getElem? hel), ?_⟩
  · rw [← hels, List.getElem?_map, hel]; rfl
  · rw [← hscale, ← hfps]
    exact hrun

/-- The ids that direct cue children of scenes give, in order. -/
def cueIds (root : Element) : List String :=
  (root.childElements ["scene"]).flatMap fun el =>
    (cueElements el.children).filterMap fun cue => cue.attributes.value? "id"

/-- A scene is what an attempt at an element gives, under the id of the element. -/
def Resolves [TimeScalar T] (el : Element) (scene : Scene T) : Prop :=
  el.get? "id" = some scene.id ∧ ∃ setting, Attempt.run setting scene.id el = .ok scene

/-- A composition is well formed, and is that of a root. -/
structure WellFormed (root : Element) (c : Composition Float) : Prop where
  scenes : List.Forall₂ Resolves (root.childElements ["scene"]) c.scenes
  named : ∀ scene ∈ c.scenes, scene.id ≠ ""
  distinct : (c.scenes.map Scene.id).Nodup
  cues : c.cues.map Cue.id = cueIds root
  cuesNamed : ∀ cue ∈ c.cues, cue.id ≠ ""
  cuesDistinct : (c.cues.map Cue.id).Nodup
  forward : ∀ scene ∈ c.scenes, ∀ stop ∈ scene.stop, scene.start.isNaN = false →
    stop.isNaN = false → scene.start ≤ stop
  started : ∀ cue ∈ c.cues, cue.stop.isSome = true → cue.start.isSome = true
  fps : c.fps.isPositive = true
  width : c.width.isPositive = true
  height : c.height.isPositive = true

theorem get?_ne_empty {el : Element} {name value : String} (h : el.get? name = some value) :
    value ≠ "" ∧ el.attributes.value? name = some value := by
  unfold Element.get? at h
  split at h
  · rename_i given hgiven
    split at h
    · cases h
    · rename_i hne
      cases h
      refine ⟨?_, hgiven⟩
      rintro rfl
      exact hne rfl
  · cases h

theorem isNaN_of_plain? {raw : String} {x : Float} (h : Number.plain? raw = .ok (some (.real x))) :
    x.isNaN = false := by
  unfold Number.plain? at h
  dsimp only at h
  split at h
  · cases h
  · split at h
    · cases hdigits : Number.ofDigits (Number.spanSign raw.toList).1
        (Number.spanDigits (Number.spanSign raw.toList).2).1 with
      | error fault => rw [hdigits] at h; cases h
      | ok n => rw [hdigits] at h; cases h
    · split at h
      · split at h
        · cases h
        · cases h
          exact Number.isNaN_ofDecimal ..
      · cases h

theorem isPositive_of_positiveNumber {el : Element} {name : String} {default number : Number}
    (hdefault : default.isPositive = true) (h : el.positiveNumber name default = .ok number) :
    number.isPositive = true := by
  unfold Element.positiveNumber at h
  split at h
  · cases h
    exact hdefault
  · split at h
    · cases h
    · cases h
    · rename_i hplain
      split at h
      · cases h
      · rename_i hnonpositive
        cases h
        refine Number.isPositive_of_isNonpositive (Bool.eq_false_iff.mpr hnonpositive) ?_
        rintro x rfl
        exact isNaN_of_plain? hplain

theorem exists_of_forall₂ {α β : Type} {R : α → β → Prop} {as : List α} {bs : List β} {b : β}
    (h : List.Forall₂ R as bs) (hb : b ∈ bs) : ∃ a, R a b := by
  induction h with
  | nil => cases hb
  | cons hfirst _ ih =>
      rcases List.mem_cons.mp hb with rfl | hb
      · exact ⟨_, hfirst⟩
      · exact ih hb

section

variable [TimeScalar T]

theorem compose_resolves {root : Element} {c : Composition T} (h : compose root = .ok c) :
    List.Forall₂ Resolves (root.childElements ["scene"]) c.scenes := by
  obtain ⟨hlength, hruns⟩ := compose_run h
  refine List.forall₂_iff_get.mpr ⟨hlength.symm, fun i hi hi' => ?_⟩
  obtain ⟨el, hel, hid, hrun⟩ := hruns i _ (List.getElem?_eq_getElem hi')
  rw [List.getElem?_eq_getElem hi] at hel
  cases hel
  exact ⟨hid, _, hrun⟩

/-- A scene that an element resolves to is as it should be. -/
theorem Resolves.of {el : Element} {scene : Scene T} (h : Resolves el scene) :
    ∃ setting, Scene.Of setting el scene := by
  obtain ⟨-, setting, hrun⟩ := h
  exact ⟨setting, Attempt.run_of setting hrun⟩

omit [TimeScalar T] in
theorem ids_of_cues {els : List Element} {cues : List (Cue T)} (h : List.Forall₂ Cue.Of els cues) :
    cues.map Cue.id = els.filterMap fun cue => cue.attributes.value? "id" := by
  induction h with
  | nil => rfl
  | cons hcue _ ih =>
      rw [List.filterMap_cons, (get?_ne_empty hcue.id).2, ← ih]
      rfl

theorem ids_of_resolves {els : List Element} {scenes : List (Scene T)}
    (h : List.Forall₂ Resolves els scenes) :
    (scenes.flatMap Scene.cues).map Cue.id = els.flatMap fun el =>
      (cueElements el.children).filterMap fun cue => cue.attributes.value? "id" := by
  induction h with
  | nil => rfl
  | cons hfirst _ ih =>
      obtain ⟨setting, hof⟩ := hfirst.of
      rw [List.flatMap_cons, List.flatMap_cons, List.map_append, ih, ids_of_cues hof.cues]

end

theorem compose_wellFormed (root : Element) :
    (∀ c, compose root = .ok c → WellFormed root c) ∧
      (¬ (cueIds root).Nodup → ∀ c : Composition Float, compose root ≠ .ok c) := by
  have hformed : ∀ c, compose root = .ok c → WellFormed root c := by
    intro c h
    obtain ⟨hfps, hwidth, hheight, -⟩ := compose_parts h
    obtain ⟨hdistinct, hcues⟩ := compose_distinct h
    have hresolves := compose_resolves h
    have hcue : ∀ cue ∈ c.cues, ∃ el, Cue.Of el cue := by
      intro cue hmem
      obtain ⟨scene, hscene, hmem⟩ := List.mem_flatMap.mp hmem
      obtain ⟨el, hel⟩ := exists_of_forall₂ hresolves hscene
      obtain ⟨setting, hof⟩ := hel.of
      exact exists_of_forall₂ hof.cues hmem
    exact {
      scenes := hresolves
      named := fun scene hmem => by
        obtain ⟨el, hel⟩ := exists_of_forall₂ hresolves hmem
        exact (get?_ne_empty hel.1).1
      distinct := hdistinct
      cues := ids_of_resolves hresolves
      cuesNamed := fun cue hmem => by
        obtain ⟨el, hof⟩ := hcue cue hmem
        exact (get?_ne_empty hof.id).1
      cuesDistinct := hcues
      forward := fun scene hmem stop hstop hstart hend => by
        obtain ⟨el, hel⟩ := exists_of_forall₂ hresolves hmem
        obtain ⟨setting, hof⟩ := hel.of
        exact of_decide_eq_true (Number.le_of_lt_eq_false hstart hend (hof.stop stop hstop))
      started := fun cue hmem => by
        obtain ⟨el, hof⟩ := hcue cue hmem
        exact hof.started
      fps := isPositive_of_positiveNumber rfl hfps
      width := isPositive_of_positiveNumber rfl hwidth
      height := isPositive_of_positiveNumber rfl hheight }
  refine ⟨hformed, fun hshared c h => hshared ?_⟩
  rw [← (hformed c h).cues]
  exact (hformed c h).cuesDistinct

/-- Two scenes in a film, the second one with the cue of the first one or with another one. -/
def twice (cue : String) : Element where
  tag := "vml"
  attributes := [("id", "film")]
  children := [
    { tag := "scene"
      attributes := [("id", "intro"), ("duration", "2")]
      children := [{ tag := "cue", attributes := [("id", "hello"), ("start", "1")] }] },
    { tag := "scene"
      attributes := [("id", "outro")]
      children := [{ tag := "cue", attributes := [("id", cue)] }] }]

theorem compose_wellFormed_twice :
    (∃ c : Composition Float, compose (twice "goodbye") = .ok c ∧
      WellFormed (twice "goodbye") c) ∧
      ¬ (cueIds (twice "hello")).Nodup ∧
        ∀ c : Composition Float, compose (twice "hello") ≠ .ok c := by
  have hcomposes : (compose (T := Float) (twice "goodbye")).toBool = true := by decide +kernel
  have hshared : ¬ (cueIds (twice "hello")).Nodup := by decide
  constructor
  · cases hc : compose (T := Float) (twice "goodbye") with
    | error fault => rw [hc] at hcomposes; cases hcomposes
    | ok c => exact ⟨c, rfl, (compose_wellFormed _).1 c hc⟩
  · exact ⟨hshared, (compose_wellFormed _).2 hshared⟩

/-- A scene of no duration on a scale that is infinite, and a scene after it. -/
def unscaled : Element where
  tag := "vml"
  attributes := [("id", "film"), ("timeScale", "inf")]
  children := [
    { tag := "scene", attributes := [("id", "intro"), ("duration", "0")] },
    { tag := "scene", attributes := [("id", "outro"), ("end", "5")] }]

/-- Nothing times infinity is no number, and no time is before it or after. -/
theorem compose_unscaled : ∃ c : Composition Float, compose unscaled = .ok c ∧
    ∃ scene ∈ c.scenes, ∃ stop ∈ scene.stop, stop.isNaN = false ∧ ¬ scene.start ≤ stop := by
  have hend : ((compose unscaled).toOption.any fun c : Composition Float =>
      c.scenes.any fun scene => scene.stop.any fun stop =>
        !stop.isNaN && !TimeScalar.le scene.start stop) = true := by
    decide +kernel
  obtain ⟨c, hc, hend⟩ := exists_ok_of_any hend
  obtain ⟨scene, hscene, hend⟩ := List.any_eq_true.mp hend
  obtain ⟨stop, hstop, hend⟩ := (Option.any_eq_true _ _).mp hend
  rw [Bool.and_eq_true, Bool.not_eq_true', Bool.not_eq_true'] at hend
  exact ⟨c, hc, scene, hscene, stop, hstop, hend.1, of_decide_eq_false hend.2⟩

end Resolution

end Cuesheet
