import Cuesheet.Proofs.Resolution.Dissolving
import Cuesheet.Proofs.Resolution.Formed

/-!
# Compositions without containers that say nothing

A scene that is resolved without an undefined end is resolved to the same without a transparent
container in it (`scene_dissolves`). So every order in which the scenes can be tried can be
followed without the container (`schedule_dissolves`), and the whole markup comes to the same
(`compose_dissolved`).
-/

namespace Cuesheet

open TimeScalar (Ordered)

namespace Attempt

variable {T : Type} [TimeScalar T] {setting : Setting T} {p : T → Prop} {el el' : Element}
  {children children' : List Element} {tag text text' : String}
  {attributes : Entries String String}

/-! ## Scenes -/

omit [TimeScalar T] in
theorem Grows.bind {α β : Type} {m : Attempt T α} {f : α → Attempt T β} (h : Grows m)
    (hf : ∀ a, Grows (f a)) : Grows (m >>= f) := by
  intro draft after b hm
  obtain ⟨a, between, hm, hfa⟩ := bind_ok hm
  exact List.Subset.trans (h hm) (hf a hfa)

/-- What is left to do for a scene once its end is found. -/
def closing (id : String) (el : Element) (place : String) (start : T) (content : SceneContent T)
    (stop : Option T) : Attempt T (Scene T) := do
  checkEnd place start stop
  let styles ← ofExcept (el.map? "styles" place)
  let markup ← ofExcept (el.map? "markup" place)
  return {
    id
    title := (el.get? "title").getD id
    start
    stop
    items := content.items
    layers := content.layers
    components := content.components
    styles
    markup
    handlers := el.handlers }

theorem closing_local (id : String) (el : Element) (place : String) (start : T)
    (content : SceneContent T) (stop : Option T) :
    Local (closing id el place start content stop) := by
  have hcheck : Local (checkEnd place start stop : Attempt T Unit) := by
    cases stop with
    | none => exact .pure ()
    | some t =>
        dsimp only [checkEnd]
        split
        · exact .throw _
        · exact .pure ()
  exact hcheck.bind fun _ => (Local.ofExcept _).bind fun _ => (Local.ofExcept _).thenPure _

theorem closeScene_grows (id : String) (el : Element) (place : String) (start : T)
    (explicit : Option T) (content : SceneContent T) :
    Grows (closeScene id el place start explicit content) :=
  fun draft _ _ hm => (closing_local id el place start content
    (explicit.or (TimeScalar.latest? draft.ends))).grows hm

/-- Scenes are closed at the same time if some ends were noted again. -/
theorem closeScene_follows (hp : Ordered p) (id : String) (el : Element) (place : String)
    (start : T) (explicit : Option T) (content : SceneContent T) :
    Follows p (closeScene id el place start explicit content)
      (closeScene id el place start explicit content) Eq := by
  rintro draft _ after s ⟨ends, rfl, hrepeats⟩ hm hends
  have hgrows := closeScene_grows id el place start explicit content hm
  have hlatest := hrepeats.latest? hp fun t ht => hends t (hgrows ht)
  have hfollows := (closing_local id el place start content
    (explicit.or (TimeScalar.latest? draft.ends))).follows (p := p) ⟨ends, rfl, hrepeats⟩ hm hends
  rw [← hlatest] at hfollows
  exact hfollows

theorem sceneStart_local (setting : Setting T) (el : Element) : Local (sceneStart setting el) := by
  refine (time?_local setting el "start").bind fun start => ?_
  cases start with
  | some start => exact .pure _
  | none =>
      dsimp only
      split
      · exact .pure _
      · split
        · exact .throw _
        · exact .pure _

theorem sceneEnd_local (setting : Setting T) (el : Element) (start scale : T) :
    Local (sceneEnd setting el start scale) := by
  refine (time?_local setting el "end").bind fun stop => ?_
  cases stop with
  | some stop => exact .pure _
  | none => exact durationEnd?_local setting el start scale

omit [TimeScalar T] in
theorem noteSceneEnd_blind (id : String) (stop : Option T) : Blind (noteSceneEnd id stop) := by
  cases stop with
  | none => exact (Local.pure ()).blind
  | some t => exact .modify fun _ _ => rfl

/-- A scene follows another one if its content does. -/
theorem scene_follows (hp : Ordered p) (id : String)
    (h : ∀ start scale place, Follows p (sceneContent setting start scale place children)
      (sceneContent setting start scale place children') Eq) :
    Follows p (scene setting id ⟨tag, attributes, children, text⟩)
      (scene setting id ⟨tag, attributes, children', text'⟩) Eq := by
  have hclose : ∀ start scale explicit place, Grows
      (sceneContent setting start scale place children >>= fun content =>
        closeScene id ⟨tag, attributes, children, text⟩ place start explicit content) :=
    fun start scale explicit place => (sceneContent_blind setting _ _ _ _).grows.bind
      fun content => closeScene_grows id _ place start explicit content
  have hnote : ∀ start scale explicit place, Grows (noteSceneEnd id explicit >>= fun _ =>
      sceneContent setting start scale place children >>= fun content =>
        closeScene id ⟨tag, attributes, children, text⟩ place start explicit content) :=
    fun start scale explicit place =>
      (noteSceneEnd_blind id explicit).grows.bind fun _ => hclose start scale explicit place
  have hmodify : ∀ start, Blind (modify fun draft : Draft T =>
      { draft with sceneStart := [(id, start)] }) := fun _ => .modify fun _ _ => rfl
  refine Follows.bind (R := Eq) (sceneStart_local setting _).follows
    (fun start => (hmodify start).grows.bind fun _ =>
      (sceneEnd_local setting _ _ _).grows.bind fun _ => hnote _ _ _ _) ?_
  rintro start _ rfl
  refine (hmodify start).follows.bind (fun _ =>
    (sceneEnd_local setting _ _ _).grows.bind fun _ => hnote _ _ _ _) ?_
  rintro _ _ rfl
  refine Follows.bind (R := Eq) (sceneEnd_local setting _ _ _).follows
    (fun _ => hnote _ _ _ _) ?_
  rintro explicit _ rfl
  refine (noteSceneEnd_blind id explicit).follows.bind (fun _ => hclose _ _ _ _) ?_
  rintro _ _ rfl
  refine (h _ _ _).bind (fun content => closeScene_grows id _ _ start explicit content) ?_
  rintro content _ rfl
  exact closeScene_follows hp id ⟨tag, attributes, children, text⟩ _ start explicit content

/-- Without a transparent container inside, a scene comes to the same. -/
theorem scene_dissolves (hp : Ordered p) (id : String) (h : Dissolves el el')
    (htag : el.tag = "scene") : Follows p (scene setting id el) (scene setting id el') Eq := by
  cases h with
  | here transparent =>
      have hkind := transparent.kind
      rw [htag] at hkind
      obtain ⟨hgone, -⟩ := hkind.resolve_right fun h => absurd h.2.1 (by decide)
      exact scene_follows hp id fun _ _ _ =>
        sceneContent_here hp hgone transparent.bare transparent.placed
  | inside inner read =>
      exact scene_follows hp id fun _ _ _ => sceneContent_inside hp inner

theorem run_dissolves (hp : Ordered p) {id : String} {s : Scene T} {after : Draft T}
    (h : Dissolves el el') (htag : el.tag = "scene")
    (hscene : scene setting id el {} = .ok (s, after)) (hends : ∀ t ∈ after.ends, p t) :
    run setting id el' = .ok s := by
  obtain ⟨_, after', hscene', -, rfl⟩ :=
    scene_dissolves hp id h htag ⟨[], rfl, .nil⟩ hscene hends
  rw [run, hscene']
  rfl

end Attempt

/-! ## Storyboards -/

/-- Two elements, the second one perhaps without a transparent container. -/
def MayDissolve (el el' : Element) : Prop := el' = el ∨ Dissolves el el'

theorem MayDissolve.like {el el' : Element} (h : MayDissolve el el') : el.Like el' := by
  rcases h with rfl | h
  · exact ⟨rfl, rfl, .inl rfl⟩
  · exact h.like

namespace Storyboard

variable {T : Type} [TimeScalar T] {p : T → Prop} {board board' : Storyboard T}
  {scenes : List (Scene T)} {progress : Progress T} {index : Nat} {s : Scene T}

/-- The same storyboard, but for transparent containers in scenes. -/
structure MayDissolve (board board' : Storyboard T) : Prop where
  fps : board'.fps = board.fps
  scale : board'.scale = board.scale
  scenes : List.Forall₂ (fun e e' : String × Element => e'.1 = e.1 ∧ Cuesheet.MayDissolve e.2 e'.2)
    board.scenes board'.scenes
  tags : ∀ e ∈ board.scenes, e.2.tag = "scene"

/-- The ends that are noted in the attempts at the scenes, with all the others known, have a
property. -/
def EndsAre (board : Storyboard T) (p : T → Prop) (scenes : List (Scene T)) : Prop :=
  ∀ index el s after, board.scenes[index]? = some (s.id, el) → scenes[index]? = some s →
    Attempt.scene (Setting.among board.fps board.scale scenes index) s.id el {} = .ok (s, after) →
      ∀ t ∈ after.ends, p t

omit [TimeScalar T] in
theorem MayDissolve.ids (h : board.MayDissolve board') :
    board'.scenes.map (·.1) = board.scenes.map (·.1) := by
  obtain ⟨-, -, hscenes, -⟩ := h
  generalize board.scenes = es, board'.scenes = es' at hscenes ⊢
  induction hscenes with
  | nil => rfl
  | cons hfirst _ ih => rw [List.map_cons, List.map_cons, hfirst.1, ih]

omit [TimeScalar T] in
theorem MayDissolve.scene? (h : board.MayDissolve board') {id : String} {el : Element}
    (hel : board.scenes[index]? = some (id, el)) :
    ∃ el', board'.scenes[index]? = some (id, el') ∧ Cuesheet.MayDissolve el el' := by
  obtain ⟨-, -, hscenes, -⟩ := h
  generalize board.scenes = es, board'.scenes = es' at hscenes hel ⊢
  induction hscenes generalizing index with
  | nil => cases hel
  | @cons e e' _ _ hfirst _ ih =>
      cases index with
      | zero =>
          obtain rfl : e = (id, el) := Option.some.inj hel
          exact ⟨e'.2, congrArg some (Prod.ext hfirst.1 rfl), hfirst.2⟩
      | succ index => exact ih hel

/-- A scene that is resolved on the way is resolved without its container. -/
theorem attempt_dissolves (hp : Ordered p) (h : board.MayDissolve board') (hd : board.Distinct)
    (hends : board.EndsAre p scenes) (hscenes : board.Consistent (scenes.map some))
    (hof : progress.Of board) (hle : progress.Le (scenes.map some))
    (hpend : index ∈ progress.pending) (hs : board.attempt progress index = .ok s)
    (hfinal : Progress.at? (scenes.map some) index = some s) :
    board'.attempt progress index = .ok s := by
  obtain ⟨el, hel, hrun⟩ := attempt_eq hs
  obtain ⟨el', hel', hmay⟩ := h.scene? hel
  have hsetting : board'.setting progress index = board.setting progress index := by
    unfold setting
    rw [h.fps, h.scale]
  rw [attempt, hel']
  dsimp only
  rw [hsetting]
  rcases hmay with rfl | hdissolves
  · exact hrun
  -- the attempt notes the same ends as the one that knows all the other scenes
  obtain ⟨after, hscene⟩ : ∃ after,
      Attempt.scene (board.setting progress index) s.id el {} = .ok (s, after) := by
    unfold Attempt.run at hrun
    cases hscene : Attempt.scene (board.setting progress index) s.id el {} with
    | error stop => rw [hscene] at hrun; cases hrun
    | ok r => rw [hscene] at hrun; cases hrun; exact ⟨r.2, rfl⟩
  have hamong := hscenes.solves hfinal
  obtain ⟨el₂, hel₂, hrun₂⟩ := attempt_eq hamong
  obtain rfl : el = el₂ := congrArg Prod.snd (Option.some.inj (hel.symm.trans hel₂))
  have hmore := hof.setting_le (set_none_of hscenes.of index) hd
    (le_set_none hle (Progress.mem_pending.mp hpend).2) index
  have hsettles : Settled (fun _ => True) (Attempt.scene _ s.id el {})
      (Attempt.scene _ s.id el {}) :=
    Attempt.scene_settles hmore s.id el (fun _ _ _ => trivial) {}
  rw [hscene] at hsettles
  rw [setting_set_none] at hsettles hrun₂
  have hall : Attempt.scene (Setting.among board.fps board.scale scenes index) s.id el {} =
      .ok (s, after) := by
    refine hsettles.ok fun fault _ hfault => ?_
    rw [Attempt.run, hfault] at hrun₂
    cases hrun₂
  exact Attempt.run_dissolves hp hdissolves (h.tags _ (List.mem_of_getElem? hel)) hscene
    (hends index el s after hel (Progress.at?_map_some scenes index ▸ hfinal) hall)

/-- What a schedule reaches is reached without the containers: scenes that wait are left out. -/
theorem schedule_dissolves (hp : Ordered p) (h : board.MayDissolve board') (hd : board.Distinct)
    (hends : board.EndsAre p scenes) {order₀ : List Nat}
    (hreach : board.Schedule order₀ (.ok (scenes.map some))) {order : List Nat}
    {outcome : Except ResolutionFault (Progress T)} (hsched : board.Schedule order outcome) :
    ∀ {progress : Progress T}, outcome = .ok progress →
      ∃ order', board'.Schedule order' (.ok progress) := by
  have hnone : Progress.pending (scenes.map some) = [] := Progress.pending_map_some scenes
  have hhalted : board.Halted (scenes.map some) :=
    ⟨hreach.consistent hd rfl, by rw [hnone]; exact fun _ => nofun⟩
  induction hsched with
  | start =>
      rintro _ ⟨⟩
      have hlength := congrArg List.length h.ids
      rw [List.length_map, List.length_map] at hlength
      have hstart : board.start = board'.start := by rw [start, start, hlength]
      exact ⟨[], hstart ▸ .start⟩
  | @tried order before index hbefore hpend ih =>
      intro progress hout
      obtain ⟨order', hbefore'⟩ := ih rfl
      obtain ⟨reached, heq, hle⟩ := hbefore.le_halted hhalted hd
      cases heq
      have hof := (hbefore.consistent hd rfl).of
      rcases hhalted.attempt_below hd hof hle hpend with hwaits | ⟨s, hs, hfinal⟩
      · rw [tryAt_of_waits hwaits] at hout
        cases hout
        exact ⟨order', hbefore'⟩
      · rw [tryAt_of_ok hs] at hout
        cases hout
        have hs' := attempt_dissolves hp h hd hends hhalted.consistent hof hle hpend hs hfinal
        exact ⟨order' ++ [index], tryAt_of_ok hs' ▸ hbefore'.tried hpend⟩

/-- Storyboards come to the same without transparent containers. -/
theorem resolve_dissolves (hp : Ordered p) (h : board.MayDissolve board') (hd : board.Distinct)
    (hends : board.EndsAre p scenes) (hres : board.resolve = .ok scenes) :
    board'.resolve = .ok scenes := by
  obtain ⟨order, hsched⟩ := board.resolve_ok hd hres
  obtain ⟨order', hsched'⟩ := schedule_dissolves hp h hd hends hsched hsched rfl
  refine resolve_of_schedule ?_ hsched'
  rw [Distinct, h.ids]
  exact hd

end Storyboard

/-! ## Compositions -/

/-- Somewhere below a root a transparent container is replaced by its children. -/
inductive DissolvesBelow : Element → Element → Prop
  | intro {tag : String} {attributes : Entries String String} {front back : List Element}
      {child child' : Element} {text text' : String} (inner : Dissolves child child') :
      DissolvesBelow ⟨tag, attributes, front ++ child :: back, text⟩
        ⟨tag, attributes, front ++ child' :: back, text'⟩

namespace Element

theorem preorderAll_append (front back : List Element) :
    preorderAll (front ++ back) = preorderAll front ++ preorderAll back := by
  induction front with
  | nil => rfl
  | cons el front ih => rw [List.cons_append, preorderAll, preorderAll, ih, List.append_assoc]

variable {f : Element → Option String}

/-- What is read off the elements of a tree, if nothing is read off containers and layers. -/
theorem filterMap_preorder_dissolves (hlike : ∀ el el' : Element, el.Like el' → f el' = f el)
    (hsilent : ∀ el, isSilentTag el.tag = true → f el = none) {el el' : Element}
    (h : Dissolves el el') : el'.preorder.filterMap f = el.preorder.filterMap f := by
  have hself := hlike _ _ h.like
  induction h with
  | @here tag attributes front back gone text text' transparent =>
      have hgone : f gone = none := by
        refine hsilent gone ?_
        rw [isSilentTag, transparent.isContainerTag, Bool.true_or]
      obtain ⟨goneTag, goneAttributes, goneChildren, goneText⟩ := gone
      simp only [preorder, preorderAll, preorderAll_append, List.filterMap_cons, hself,
        List.filterMap_append, hgone]
  | inside inner read ih =>
      simp only [preorder, preorderAll, preorderAll_append, List.filterMap_cons, hself,
        List.filterMap_append, ih (hlike _ _ inner.like)]

end Element

namespace Resolution

variable {T : Type} [TimeScalar T] {p : T → Prop} {root root' : Element}

theorem scripts_dissolve (h : DissolvesBelow root root') (htag : root.tag ≠ "script") :
    scripts root' = scripts root := by
  obtain ⟨inner⟩ := h
  have hother : ∀ el : Element, Element.isSilentTag el.tag = true →
      (el.tag == "script") = false := by
    intro el hsilent
    refine beq_eq_false_iff_ne.mpr fun hscript => ?_
    rw [hscript] at hsilent
    cases hsilent
  unfold scripts
  have hrest := Element.filterMap_preorder_dissolves (f := fun el =>
    if el.tag == "script" then
      let code := Text.trim el.text
      if code.isEmpty then none else some code
    else none) ?_ ?_ inner
  · rename_i tag attributes front back child child' text text'
    have hroot : (tag == "script") = false := beq_eq_false_iff_ne.mpr htag
    simp only [Element.preorder, Element.preorderAll, Element.preorderAll_append,
      List.filterMap_cons, List.filterMap_append, hroot, Bool.false_eq_true, if_false]
    rw [hrest]
  · intro el el' hlike
    rcases hlike.text with htext | hsilent
    · simp only [hlike.tag, htext]
    · simp only [hlike.tag, hother el hsilent, Bool.false_eq_true, if_false]
  · intro el hsilent
    simp only [hother el hsilent, Bool.false_eq_true, if_false]

theorem childElements_dissolve (h : DissolvesBelow root root') (tags : List String)
    (htags : tags.isEmpty = false) :
    List.Forall₂ MayDissolve (root.childElements tags) (root'.childElements tags) := by
  obtain ⟨inner⟩ := h
  rename_i tag attributes front back child child' text text'
  have hsame : ∀ els : List Element, List.Forall₂ MayDissolve els els :=
    fun els => List.forall₂_same.mpr fun _ _ => .inl rfl
  simp only [Element.childElements, htags, Bool.false_eq_true, if_false, List.filter_append,
    List.filter_cons, inner.like.tag]
  refine List.rel_append (hsame _) ?_
  split
  · exact .cons (.inr inner) (hsame _)
  · exact hsame _

theorem voiceover?_dissolve (h : DissolvesBelow root root') (fps : Number) :
    voiceover? (T := T) fps root' = voiceover? fps root := by
  have hvoiceovers := childElements_dissolve h ["voiceover"] rfl
  unfold voiceover?
  generalize root.childElements ["voiceover"] = els, root'.childElements ["voiceover"] = els'
    at hvoiceovers
  cases hvoiceovers with
  | nil => rfl
  | cons hfirst hrest =>
      cases hrest with
      | nil =>
          rename_i el el'
          obtain ⟨tag, attributes, children, text⟩ := el
          obtain ⟨tag', attributes', children', text'⟩ := el'
          obtain ⟨htag, hattributes, -⟩ := hfirst.like
          cases htag
          cases hattributes
          rfl
      | cons => rfl

omit [TimeScalar T] in
theorem identified_dissolve {els els' : List Element} (h : List.Forall₂ MayDissolve els els')
    {index : Nat} {taken : List String} {scenes : List (String × Element)}
    (hscenes : identified index taken els = .ok scenes) :
    ∃ scenes', identified index taken els' = .ok scenes' ∧
      List.Forall₂ (fun e e' : String × Element => e'.1 = e.1 ∧ MayDissolve e.2 e'.2)
        scenes scenes' := by
  induction h generalizing index taken scenes with
  | nil =>
      cases hscenes
      exact ⟨[], rfl, .nil⟩
  | @cons el el' rest rest' hfirst _ ih =>
      have hget : el'.get? "id" = el.get? "id" := by
        rw [Element.get?, Element.get?, hfirst.like.attributes]
      rw [identified] at hscenes ⊢
      rw [hget]
      cases hid : el.get? "id" with
      | none => rw [hid] at hscenes; cases hscenes
      | some id =>
          rw [hid] at hscenes
          dsimp only at hscenes ⊢
          split at hscenes
          · cases hscenes
          · rename_i hfree
            rw [if_neg hfree]
            cases hrest : identified (index + 1) (id :: taken) rest with
            | error fault => rw [hrest] at hscenes; cases hscenes
            | ok found =>
                rw [hrest] at hscenes
                cases hscenes
                obtain ⟨found', hfound, hrel⟩ := ih hrest
                exact ⟨(id, el') :: found', by rw [hfound]; rfl, .cons ⟨rfl, hfirst⟩ hrel⟩

theorem storyboard_dissolves (h : DissolvesBelow root root') {fps : Number}
    {board : Storyboard T} (hboard : storyboard fps root = .ok board) :
    ∃ board', storyboard fps root' = .ok board' ∧ board.MayDissolve board' := by
  have hscenes := childElements_dissolve h ["scene"] rfl
  have htags : ∀ el ∈ root.childElements ["scene"], el.tag = "scene" := by
    intro el hel
    simpa [Element.childElements] using (List.mem_filter.mp hel).2
  obtain ⟨-, hscale, -, hels, -⟩ := storyboard_ok hboard
  have hscale' : root'.timeScale (T := T) = root.timeScale := by
    obtain ⟨inner⟩ := h
    rfl
  unfold storyboard at hboard ⊢
  generalize root.childElements ["scene"] = els, root'.childElements ["scene"] = els' at *
  cases hscenes with
  | nil => cases hboard
  | cons hfirst hrest =>
      dsimp only at hboard ⊢
      rename_i el el' rest rest'
      cases hid : identified 0 [] (el :: rest) with
      | error fault => rw [hid] at hboard; cases hboard
      | ok scenes =>
          rw [hid] at hboard
          cases hboard
          obtain ⟨scenes', hid', hrel⟩ := identified_dissolve (.cons hfirst hrest) hid
          refine ⟨{ fps, scale := root'.timeScale, scenes := scenes' }, by rw [hid']; rfl,
            rfl, hscale', hrel, fun e he => ?_⟩
          refine htags e.2 ?_
          rw [← hels]
          exact List.mem_map_of_mem he

/-- What a root comes to is read off its tag and its attributes and off what its parts come to. -/
theorem compose_of_parts {c : Composition T} (hc : compose root = .ok c)
    (htag : root'.tag = root.tag) (hattributes : root'.attributes = root.attributes)
    (hvoiceover : ∀ fps, voiceover? (T := T) fps root' = voiceover? fps root)
    (hscenes : ∀ board : Storyboard T, storyboard c.fps root = .ok board →
      board.resolve = .ok c.scenes →
        ∃ board' : Storyboard T, storyboard c.fps root' = .ok board' ∧
          board'.resolve = .ok c.scenes)
    (hscripts : scripts root' = scripts root) : compose root' = .ok c := by
  have hget : ∀ name, root'.get? name = root.get? name := fun name => by
    rw [Element.get?, Element.get?, hattributes]
  have hnumber : ∀ name default, root'.positiveNumber name default =
      root.positiveNumber name default := fun name default => by
    rw [Element.positiveNumber, Element.positiveNumber, hget, htag]
  have htime : ∀ fps name, staticTime? (T := T) fps root' name = staticTime? fps root name :=
    fun fps name => by rw [staticTime?, staticTime?, hget, htag]
  have hhandlers : root'.handlers = root.handlers := by
    rw [Element.handlers, Element.handlers, hattributes]
  simp only [compose, bind, Except.bind, pure, Except.pure] at hc ⊢
  split at hc
  · cases hc
  · rename_i hknown
    split at hc
    · cases hc
    · -- size, rate, duration, poster, voiceover, storyboard and scenes
      iterate 8
        split at hc
        · cases hc
      rename_i hid _ _ hfps _ _ hwidth _ _ hheight _ _ hduration _ _ hposter _ _ hvoice _ _ hboard
        _ _ hres
      cases hc
      obtain ⟨board', hboard', hres'⟩ := hscenes _ hboard hres
      dsimp only at hboard' hres'
      rw [htag, if_neg hknown]
      simp only [hget, hnumber, htime, hhandlers, hvoiceover, hscripts, hid, hfps, hwidth, hheight,
        hduration, hposter, hvoice, hboard', hres']

/-- The ends that are noted, of cues, layers, components and containers, when a scene of a
composition is tried with all the others known. -/
def notedEnds (root : Element) (c : Composition T) : List T :=
  ((root.childElements ["scene"]).zip c.scenes).zipIdx.flatMap fun ((el, s), index) =>
    match Attempt.scene (Setting.among c.fps root.timeScale c.scenes index) s.id el {} with
    | .ok (_, after) => after.ends
    | .error _ => []

theorem mem_notedEnds {c : Composition T} {index : Nat} {el : Element} {s : Scene T}
    {after : Draft T} (hel : (root.childElements ["scene"])[index]? = some el)
    (hs : c.scenes[index]? = some s)
    (hscene : Attempt.scene (Setting.among c.fps root.timeScale c.scenes index) s.id el {} =
      .ok (s, after)) {t : T} (ht : t ∈ after.ends) : t ∈ notedEnds root c := by
  refine List.mem_flatMap.mpr ⟨((el, s), index), ?_, ?_⟩
  · exact List.mk_mem_zipIdx_iff_getElem?.mpr (List.getElem?_zip_eq_some.mpr ⟨hel, hs⟩)
  · dsimp only
    rw [hscene]
    exact ht

/-- Markup that is resolved without an end that is NaN comes to the same without a container that
has no attributes and places its children as its parent would. -/
theorem compose_dissolved {root root' : Element} {c : Composition Float}
    (h : DissolvesBelow root root') (hc : compose root = .ok c)
    (hends : ∀ t ∈ notedEnds root c, t.isNaN = false) : compose root' = .ok c := by
  have hroot : root.tag ≠ "script" := by
    intro hscript
    rw [compose, hscript] at hc
    cases hc
  have hlike : root'.tag = root.tag ∧ root'.attributes = root.attributes := by
    obtain ⟨inner⟩ := h
    exact ⟨rfl, rfl⟩
  refine compose_of_parts hc hlike.1 hlike.2 (voiceover?_dissolve h) ?_ (scripts_dissolve h hroot)
  intro board hboard hres
  obtain ⟨board', hboard', hmay⟩ := storyboard_dissolves h hboard
  obtain ⟨hfps, hscale, hd, hels, -⟩ := storyboard_ok hboard
  refine ⟨board', hboard', board.resolve_dissolves TimeScalar.ordered_isNaN hmay hd ?_ hres⟩
  intro index el s after hel hs hscene t ht
  rw [hfps, hscale] at hscene
  refine hends t (mem_notedEnds ?_ hs hscene ht)
  rw [← hels, List.getElem?_map, hel]
  rfl

/-- A film of one scene, a sequence of a stack and a caption. -/
def stacked (children : List Element) : Element where
  tag := "vml"
  attributes := [("id", "film")]
  children := [] ++ {
    tag := "scene"
    attributes := [("id", "intro")]
    children := [] ++ {
      tag := "sequence"
      children := [] ++ { tag := "stack", children } :: [{ tag := "caption" }] } :: [] } :: []

/-- An image until the given time. -/
def imageUntil (stop : String) : Element where
  tag := "image"
  attributes := [("end", stop)]

/-- An image, and another one in a stack of its own. -/
def inStack : List Element := [imageUntil "2", { tag := "stack", children := [imageUntil "5"] }]

theorem stacked_dissolves :
    DissolvesBelow (stacked inStack) (stacked [imageUntil "2", imageUntil "5"]) := by
  have hinner : Dissolves { tag := "stack", children := inStack }
      { tag := "stack", children := [imageUntil "2", imageUntil "5"] } := by
    refine @Dissolves.here "stack" [] [imageUntil "2"] [] _ "" "" ⟨rfl, ?_, .inl ⟨.inl rfl, ?_⟩⟩
    · intro child hchild
      rw [List.mem_singleton.mp hchild]
      exact .inr (by decide)
    · exact .inr (.inr rfl)
  exact .intro (.inside (.inside hinner (.inl rfl)) (.inl rfl))

theorem compose_dissolved_stacked : ∃ c : Composition Float,
    compose (stacked inStack) = .ok c ∧
      compose (stacked [imageUntil "2", imageUntil "5"]) = .ok c := by
  have hends : ((compose (stacked inStack)).toOption.any fun c : Composition Float =>
      (notedEnds (stacked inStack) c).all fun t => !t.isNaN) = true := by
    decide +kernel
  obtain ⟨c, hc, hends⟩ := exists_ok_of_any hends
  refine ⟨c, hc, compose_dissolved stacked_dissolves hc fun t ht => ?_⟩
  exact Bool.not_eq_true' _ ▸ List.all_eq_true.mp hends t ht

end Resolution

end Cuesheet
