import Cuesheet.Proofs.Number.Digits
import Cuesheet.Proofs.Resolution.Cascading

/-!
# Ids of components

A component that is given no id is called by its tag and a number: how many components of its scene
stand before it in the document, whatever containers and layers they are in (`run_numbered`). Two
ids of this kind never agree (`generatedId_inj`), but nothing keeps an id that is given from being
one of them. So the ids of a scene whose given ids are distinct are distinct exactly if none of the
given ones `Clashes` with a generated one (`compose_distinct_iff`).
-/

namespace Cuesheet

namespace Element

/-! ## Ids by number -/

/-- The id of a component that is given none, by the number of components before it. -/
def generatedId (el : Element) (index : Nat) : String := el.tag ++ "-" ++ Number.intText index

def idAt (el : Element) (index : Nat) : String := (el.get? "id").getD (el.generatedId index)

/-- The number in a generated id stands behind the last hyphen. -/
theorem lastPart_generatedId (el : Element) (index : Nat) :
    ((el.generatedId index).toList.reverse.takeWhile (· != '-')).reverse =
      Number.natChars index := by
  have hdigits : ∀ c ∈ (Number.natChars index).reverse, (c != '-') = true := by
    intro c hc
    obtain ⟨d, hd, rfl⟩ := Number.exists_digit_of_mem_natChars (List.mem_reverse.mp hc)
    interval_cases d <;> rfl
  have hchars : (el.generatedId index).toList.reverse =
      (Number.natChars index).reverse ++ '-' :: el.tag.toList.reverse := by
    simp [generatedId, Number.toList_intText]
  rw [hchars, List.takeWhile_append_of_pos hdigits, List.takeWhile_cons_of_neg (by simp),
    List.append_nil, List.reverse_reverse]

theorem generatedId_inj {el other : Element} {m n : Nat}
    (h : el.generatedId m = other.generatedId n) : m = n := by
  refine Number.natChars_inj ?_
  rw [← lastPart_generatedId el m, h, lastPart_generatedId]

/-- The ids of some components that follow `first` other ones. -/
def named (first : Nat) (els : List Element) : List String :=
  (els.zipIdx first).map fun (el, index) => el.idAt index

theorem named_append (first : Nat) (front back : List Element) :
    named first (front ++ back) = named first front ++ named (first + front.length) back := by
  rw [named, List.zipIdx_append, List.map_append]
  rfl

/-- An id that is given to one component is generated for another one. -/
def Clashes (els : List Element) : Prop :=
  ∃ el index, (el, index) ∈ els.zipIdx ∧ el.get? "id" = none ∧
    ∃ other ∈ els, other.get? "id" = some (el.generatedId index)

/-- If the given ids are distinct, it takes a clash for two ids to agree. -/
theorem nodup_named_iff {els : List Element}
    (hgiven : (els.filterMap fun el => el.get? "id").Nodup) :
    (named 0 els).Nodup ↔ ¬ Clashes els := by
  constructor
  · rintro hnodup ⟨el, index, hmem, hnone, other, hother, hsome⟩
    obtain ⟨index', hindex'⟩ := List.mem_iff_getElem?.mp hother
    have hmem' : (other, index') ∈ els.zipIdx := List.mem_zipIdx_iff_getElem?.mpr hindex'
    have hsame : el.idAt index = other.idAt index' := by
      rw [idAt, hnone, idAt, hsome]
      rfl
    cases List.inj_on_of_nodup_map hnodup hmem hmem' hsame
    cases hnone.symm.trans hsome
  · intro hclash
    have hids : els.zipIdx.Pairwise fun x y =>
        ∀ id, x.1.get? "id" = some id → ∀ id', y.1.get? "id" = some id' → id ≠ id' := by
      have hels : (els.zipIdx.map Prod.fst).Pairwise fun el other =>
          ∀ id, el.get? "id" = some id → ∀ id', other.get? "id" = some id' → id ≠ id' := by
        rw [List.zipIdx_map_fst]
        exact List.pairwise_filterMap.mp hgiven
      exact List.pairwise_map.mp hels
    have hindices : els.zipIdx.Pairwise fun x y => x.2 ≠ y.2 := by
      have hnumbers : (els.zipIdx.map Prod.snd).Nodup := by
        rw [List.zipIdx_map_snd]
        exact List.nodup_range'
      exact List.pairwise_map.mp hnumbers
    refine List.pairwise_map.mpr ?_
    refine (hids.and hindices).imp_of_mem fun {x y} hx hy ⟨hgiven, hindex⟩ hsame => ?_
    obtain ⟨el, i⟩ := x
    obtain ⟨other, j⟩ := y
    dsimp only at hgiven hindex hsame
    have hel := List.mem_of_getElem? (List.mem_zipIdx_iff_getElem?.mp hx)
    have hother := List.mem_of_getElem? (List.mem_zipIdx_iff_getElem?.mp hy)
    rw [idAt, idAt] at hsame
    cases hid : el.get? "id" with
    | none =>
        cases hid' : other.get? "id" with
        | none =>
            rw [hid, hid'] at hsame
            exact hindex (generatedId_inj hsame)
        | some id' =>
            rw [hid, hid'] at hsame
            exact hclash ⟨el, i, hx, hid, other, hother, by rw [hid']; exact congrArg _ hsame.symm⟩
    | some id =>
        cases hid' : other.get? "id" with
        | none =>
            rw [hid, hid'] at hsame
            exact hclash ⟨other, j, hy, hid', el, hel, by rw [hid]; exact congrArg _ hsame⟩
        | some id' =>
            rw [hid, hid'] at hsame
            exact hgiven id hid id' hid' hsame

/-! ## The components of a scene -/

/-- The components at the heads of chains. -/
def heads (chains : List (List Element)) : List Element := chains.filterMap List.head?

/-- The components that a child of a scene comes to. -/
def childParts (child : Element) : List Element :=
  heads (if child.tag == "layer" then chainsAll [] child.children else chains [] child)

/-- The components of a scene in the order of the document, by the children of the scene. -/
def sceneParts (children : List Element) : List Element := children.flatMap childParts

end Element

namespace Attempt

variable {T α β : Type}

/-! ## Steps that count no component -/

/-- A step that leaves the number of components as it is. -/
def Uncounted (m : Attempt T α) : Prop :=
  ∀ draft a draft', m draft = .ok (a, draft') → draft'.components = draft.components

theorem Reads.uncounted {m : Attempt T α} (h : Reads m) : Uncounted m :=
  fun draft a draft' hrun => by rw [h draft a draft' hrun]

namespace Uncounted

theorem bind {m : Attempt T α} {f : α → Attempt T β} (h : Uncounted m)
    (hf : ∀ a, Uncounted (f a)) : Uncounted (m >>= f) := by
  intro draft b draft' hrun
  obtain ⟨a, between, hm, hfa⟩ := bind_ok hrun
  rw [hf a between b draft' hfa, h draft a between hm]

theorem pure (a : α) : Uncounted (pure a : Attempt T α) := (Reads.pure a).uncounted

theorem get : Uncounted (get : Attempt T (Draft T)) := by
  rintro draft _ _ ⟨⟩
  rfl

theorem modify {f : Draft T → Draft T} (h : ∀ draft, (f draft).components = draft.components) :
    Uncounted (modify f : Attempt T PUnit) := by
  rintro draft _ _ ⟨⟩
  exact h draft

theorem fail (fault : ResolutionFault) : Uncounted (fail fault : Attempt T α) :=
  (Reads.throw _).uncounted

end Uncounted

theorem noteEnd_uncounted (stop : Option T) : Uncounted (noteEnd stop) := by
  cases stop with
  | none => exact .pure ()
  | some t => exact .modify fun _ => rfl

variable [TimeScalar T] {setting : Setting T}

theorem cueTimes_uncounted (el : Element) (id : String) (sceneStart scale : T) :
    Uncounted (cueTimes setting el id sceneStart scale) := by
  refine Uncounted.bind (place?_reads el "start" _ _).uncounted fun start => ?_
  cases start with
  | none =>
      dsimp only
      split
      · exact .fail _
      · exact .pure _
  | some start =>
      refine Uncounted.bind (.modify fun _ => rfl) fun _ => ?_
      refine Uncounted.bind (place?_reads el "end" _ _).uncounted fun placed => ?_
      cases placed with
      | none =>
          refine Uncounted.bind (durationEnd?_reads el _ _).uncounted fun stop => ?_
          exact (noteEnd_uncounted stop).bind fun _ => .pure _
      | some t => exact (noteEnd_uncounted (some t)).bind fun _ => .pure _

theorem cue_uncounted (el : Element) (sceneStart scale : T) (place : String) :
    Uncounted (cue setting el sceneStart scale place) := by
  unfold cue
  cases el.get? "id" with
  | none => exact .fail _
  | some id =>
      refine Uncounted.bind .get fun draft => ?_
      dsimp only
      split
      · exact .fail _
      · refine Uncounted.bind (.modify fun _ => rfl) fun _ => ?_
        refine Uncounted.bind (cueTimes_uncounted el id _ _) fun times => ?_
        exact Uncounted.bind (cueContent_reads _ _).uncounted fun content => .pure _

/-! ## Components that are numbered -/

/-- Some components are called by their numbers, in whatever order they are kept. -/
structure Numbered (draft draft' : Draft T) (els : List Element) (components : List (Component T)) :
    Prop where
  ids : (components.map Component.id).Perm (Element.named draft.components els)
  count : draft'.components = draft.components + els.length

namespace Numbered

variable {draft draft' draft'' : Draft T} {els others : List Element}
  {components found : List (Component T)}

omit [TimeScalar T]

theorem nothing (h : draft'.components = draft.components) : Numbered draft draft' [] [] :=
  ⟨.nil, h⟩

theorem append (h : Numbered draft draft' els components)
    (h' : Numbered draft' draft'' others found) :
    Numbered draft draft'' (els ++ others) (components ++ found) := by
  constructor
  · rw [List.map_append, Element.named_append, ← h.count]
    exact h.ids.append h'.ids
  · rw [h'.count, h.count, List.length_append, Nat.add_assoc]

theorem perm (h : Numbered draft draft' els components) (hperm : found.Perm components) :
    Numbered draft draft' els found :=
  ⟨(hperm.map _).trans h.ids, h.count⟩

theorem uncounted (h : Numbered draft draft' els components)
    (hcount : draft''.components = draft'.components) : Numbered draft draft'' els components :=
  ⟨h.ids, hcount.trans h.count⟩

theorem after (h : Numbered draft' draft'' els components)
    (hcount : draft'.components = draft.components) : Numbered draft draft'' els components :=
  ⟨hcount ▸ h.ids, hcount ▸ h.count⟩

end Numbered

section

variable {around : Surroundings T} {cursor : T} {el : Element} {draft draft' : Draft T}

theorem component_numbered {c : Component T}
    (hrun : component setting around cursor el draft = .ok (c, draft')) :
    Numbered draft draft' [el] [c] := by
  obtain ⟨⟨start, explicit⟩, between, hwindow, h⟩ := bind_ok hrun
  obtain rfl := window_reads _ _ _ _ _ hwindow
  obtain ⟨_, noted, hnote, h⟩ := bind_ok h
  have hnoted := noteEnd_uncounted _ _ _ _ hnote
  obtain ⟨index, counted, hindex, h⟩ := bind_ok h
  cases hindex
  obtain ⟨props, _, hprops, h⟩ := bind_ok h
  obtain ⟨z, _, hz, h⟩ := bind_ok h
  obtain ⟨styles, _, hstyles, h⟩ := bind_ok h
  obtain ⟨markup, _, hmarkup, h⟩ := bind_ok h
  cases h
  cases ofExcept_ok hmarkup
  cases ofExcept_ok hstyles
  cases ofExcept_ok hz
  cases ofExcept_ok hprops
  refine ⟨?_, congrArg (· + 1) hnoted⟩
  rw [← hnoted]
  exact .refl _

mutual

theorem container_numbered : ∀ (el : Element) {around : Surroundings T} {cursor : T}
    {draft draft' : Draft T} {found : List (Component T)} {stop : Option T}
    (outer : List Element), Element.isContainerTag el.tag = true →
      container setting around cursor el draft = .ok ((found, stop), draft') →
        Numbered draft draft' (Element.heads (Element.chains outer el)) found
  | ⟨tag, attributes, children, text⟩, around, cursor, draft, draft', found, stop, outer, htag,
      h => by
      obtain ⟨start, explicit, between, inner, between', placed, after, hwindow, hinner, hplaced,
        rfl, -, rfl⟩ := container_spec h
      obtain rfl := window_reads _ _ _ _ _ hwindow
      obtain rfl := surroundingsOf_reads _ _ _ _ _ _ hinner
      rw [Element.chains, if_pos htag]
      exact (contained_numbered children _ hplaced).uncounted rfl

theorem contained_numbered : ∀ (children : List Element) {around : Surroundings T} {cursor : T}
    {latest : Option T} {draft draft' : Draft T} {placed : Placed T} (outer : List Element),
    contained setting around cursor latest children draft = .ok (placed, draft') →
      Numbered draft draft' (Element.heads (Element.chainsAll outer children)) placed.components
  | [], around, cursor, latest, draft, draft', placed, outer, h => by
      rw [contained] at h
      cases h
      exact .nothing rfl
  | child :: rest, around, cursor, latest, draft, draft', placed, outer, h => by
      rw [contained] at h
      rw [Element.chainsAll, Element.heads, List.filterMap_append]
      split at h
      · rename_i htag
        obtain ⟨⟨found, stop⟩, between, hfound, h⟩ := bind_ok h
        obtain ⟨others, _, hothers, h⟩ := bind_ok h
        cases h
        exact (container_numbered child outer htag hfound).append
          (contained_numbered rest outer hothers)
      · rename_i htag
        split at h
        · rename_i hstructural
          rw [Element.chains_structural htag hstructural]
          exact contained_numbered rest outer h
        · rename_i hstructural
          rw [Element.chains_component htag hstructural]
          obtain ⟨c, between, hc, h⟩ := bind_ok h
          obtain ⟨others, _, hothers, h⟩ := bind_ok h
          cases h
          exact (component_numbered hc).append (contained_numbered rest outer hothers)

end

theorem layer_numbered {start : T} {place : String} {l : Layer T}
    (hrun : layer setting el start place draft = .ok (l, draft')) :
    Numbered draft draft' (Element.heads (Element.chainsAll [] el.children)) l.components := by
  unfold layer at hrun
  cases hid : el.get? "id" with
  | none => rw [hid] at hrun; cases hrun
  | some id =>
      rw [hid] at hrun
      obtain ⟨⟨start, explicit⟩, between, hwindow, h⟩ := bind_ok hrun
      obtain rfl := window_reads _ _ _ _ _ hwindow
      obtain ⟨placed, after, hplaced, h⟩ := bind_ok h
      obtain ⟨_, noted, hnote, h⟩ := bind_ok h
      obtain ⟨z, _, hz, h⟩ := bind_ok h
      obtain ⟨styles, _, hstyles, h⟩ := bind_ok h
      obtain ⟨markup, _, hmarkup, h⟩ := bind_ok h
      cases h
      cases ofExcept_ok hmarkup
      cases ofExcept_ok hstyles
      cases ofExcept_ok hz
      exact (contained_numbered el.children [] hplaced).uncounted
        (noteEnd_uncounted _ _ _ _ hnote)

/-! ## Scenes -/

omit [TimeScalar T] in
/-- The components of a scene, its own and those of its layers. -/
def SceneContent.allComponents (content : SceneContent T) : List (Component T) :=
  content.components ++ content.layers.flatMap Layer.components

theorem sceneContent_numbered {start scale : T} {place : String} :
    ∀ {children : List Element} {draft draft' : Draft T} {content : SceneContent T},
      sceneContent setting start scale place children draft = .ok (content, draft') →
        Numbered draft draft' (Element.sceneParts children) content.allComponents
  | [], draft, draft', content, h => by
      rw [sceneContent] at h
      cases h
      exact .nothing rfl
  | child :: rest, draft, draft', content, h => by
      have hskip : ¬ Element.isContainerTag child.tag = true →
          Element.isStructuralTag child.tag = true → ¬ (child.tag == "layer") = true →
            Element.childParts child = [] := by
        intro htag hstructural hlayer
        rw [Element.childParts, if_neg hlayer, Element.chains_structural htag hstructural]
        rfl
      rw [sceneContent] at h
      rw [Element.sceneParts, List.flatMap_cons]
      split at h
      · rename_i htag
        have htag : child.tag = "cue" := eq_of_beq htag
        obtain ⟨c, between, hc, h⟩ := bind_ok h
        obtain ⟨others, _, hothers, h⟩ := bind_ok h
        cases h
        rw [hskip (by rw [htag]; decide) (by rw [htag]; decide) (by rw [htag]; decide)]
        have hrest := sceneContent_numbered hothers
        exact hrest.after (cue_uncounted _ _ _ _ _ _ _ hc)
      · split at h
        · rename_i htag
          have htag : child.tag = "pause" := eq_of_beq htag
          obtain ⟨p, between, hp, h⟩ := bind_ok h
          obtain ⟨others, _, hothers, h⟩ := bind_ok h
          cases h
          rw [hskip (by rw [htag]; decide) (by rw [htag]; decide) (by rw [htag]; decide)]
          have hrest := sceneContent_numbered hothers
          exact hrest.after ((pause_reads _ _).uncounted _ _ _ hp)
        · split at h
          · rename_i htag
            obtain ⟨l, between, hl, h⟩ := bind_ok h
            obtain ⟨others, _, hothers, h⟩ := bind_ok h
            cases h
            have hfirst := layer_numbered hl
            rw [Element.childParts, if_pos htag]
            refine (hfirst.append (sceneContent_numbered hothers)).perm ?_
            simp only [SceneContent.allComponents, List.flatMap_cons]
            exact List.perm_append_comm_assoc _ _ _
          · rename_i hlayer
            have hparts : Element.childParts child = Element.heads (Element.chains [] child) := by
              rw [Element.childParts, if_neg hlayer]
            split at h
            · rename_i htag
              obtain ⟨⟨found, stop⟩, between, hfound, h⟩ := bind_ok h
              obtain ⟨others, _, hothers, h⟩ := bind_ok h
              cases h
              rw [hparts]
              refine ((container_numbered child [] htag hfound).append
                (sceneContent_numbered hothers)).perm ?_
              rw [SceneContent.allComponents, List.append_assoc]
              exact .refl _
            · rename_i htag
              split at h
              · rename_i hstructural
                rw [hskip htag hstructural hlayer]
                exact sceneContent_numbered h
              · rename_i hstructural
                obtain ⟨c, between, hc, h⟩ := bind_ok h
                obtain ⟨others, _, hothers, h⟩ := bind_ok h
                cases h
                rw [hparts, Element.chains_component htag hstructural]
                exact (component_numbered hc).append (sceneContent_numbered hothers)

theorem sceneEnd_reads (el : Element) (start scale : T) :
    Reads (sceneEnd setting el start scale) := by
  refine (time?_reads el "end").bind fun stop => ?_
  cases stop with
  | none => exact durationEnd?_reads el start scale
  | some stop => exact .pure _

omit [TimeScalar T] in
theorem noteSceneEnd_uncounted (id : String) (stop : Option T) :
    Uncounted (noteSceneEnd id stop) := by
  cases stop with
  | none => exact .pure ()
  | some stop => exact .modify fun _ => rfl

/-- The components of a scene are called by their numbers in the document. -/
theorem run_numbered {id : String} {s : Scene T} (hrun : run setting id el = .ok s) :
    (s.allComponents.map Component.id).Perm
      (Element.named 0 (Element.sceneParts el.children)) := by
  unfold run at hrun
  cases hscene : scene setting id el {} with
  | error stop => rw [hscene] at hrun; cases hrun
  | ok r =>
      rw [hscene] at hrun
      cases hrun
      obtain ⟨start, begun, hstart, h⟩ := bind_ok hscene
      obtain rfl := sceneStart_reads _ _ _ _ hstart
      obtain ⟨_, known, hknown, h⟩ := bind_ok h
      obtain ⟨explicit, ended, hended, h⟩ := bind_ok h
      obtain ⟨_, noted, hnoted, h⟩ := bind_ok h
      obtain ⟨content, _, hcontent, hclose⟩ := bind_ok h
      obtain ⟨-, ⟨-, hlayers, hcomponents⟩, -⟩ := closeScene_ok hclose
      have hcount : noted.components = 0 := by
        cases hknown
        rw [noteSceneEnd_uncounted _ _ _ _ _ hnoted,
          (sceneEnd_reads el start _).uncounted _ _ _ hended]
      have hids := (sceneContent_numbered hcontent).ids
      rw [hcount] at hids
      rw [Scene.allComponents, hlayers, hcomponents]
      exact hids

end

end Attempt

namespace Resolution

variable {T : Type} [TimeScalar T]

/-- The components of a scene are called by their numbers in the document. If the given ids are
distinct all ids are, exactly if no given id is generated for another component. -/
structure SceneNamed (el : Element) (s : Scene T) : Prop where
  ids : (s.allComponents.map Component.id).Perm (Element.named 0 (Element.sceneParts el.children))
  distinct : ((Element.sceneParts el.children).filterMap fun part => part.get? "id").Nodup →
    ((s.allComponents.map Component.id).Nodup ↔ ¬ Element.Clashes (Element.sceneParts el.children))

theorem compose_distinct_iff {root : Element} {c : Composition T} (h : compose root = .ok c) :
    List.Forall₂ SceneNamed (root.childElements ["scene"]) c.scenes := by
  obtain ⟨hlength, hruns⟩ := compose_run h
  refine List.forall₂_iff_get.mpr ⟨hlength.symm, fun index hel hs => ?_⟩
  obtain ⟨el, hget, -, hrun⟩ := hruns index _ (List.getElem?_eq_getElem hs)
  obtain ⟨_, rfl⟩ := List.getElem?_eq_some_iff.mp hget
  have hids := Attempt.run_numbered hrun
  exact ⟨hids, fun hgiven => hids.nodup_iff.trans (Element.nodup_named_iff hgiven)⟩

/-- Two boxes around a layer with a stack in it, one of whose components is given an id. -/
def labelled : Element where
  tag := "vml"
  attributes := [("id", "film")]
  children := [{
    tag := "scene"
    attributes := [("id", "intro")]
    children := [
      { tag := "box" },
      { tag := "layer"
        attributes := [("id", "top")]
        children := [{
          tag := "stack"
          children := [{ tag := "text" }, { tag := "text", attributes := [("id", "title")] }] }] },
      { tag := "box" }] }]

theorem compose_distinct_labelled : ∃ c : Composition Float, compose labelled = .ok c ∧
    (c.scenes.map fun scene => scene.allComponents.map Component.id) =
      [["box-0", "box-3", "text-1", "title"]] ∧
    List.Forall₂ SceneNamed (labelled.childElements ["scene"]) c.scenes := by
  have htest : (compose labelled).toOption.any (fun c : Composition Float =>
      (c.scenes.map fun scene => scene.allComponents.map Component.id) =
        [["box-0", "box-3", "text-1", "title"]]) = true := by
    decide +kernel
  obtain ⟨c, hc, htest⟩ := exists_ok_of_any htest
  exact ⟨c, hc, of_decide_eq_true htest, compose_distinct_iff hc⟩

/-- A box, and a text that is given the id which is generated for the box. -/
def homonyms : Element where
  tag := "vml"
  attributes := [("id", "film")]
  children := [{
    tag := "scene"
    attributes := [("id", "s")]
    children := [{ tag := "box" }, { tag := "text", attributes := [("id", "box-0")] }] }]

theorem homonyms_agree : ∃ c : Composition Float, compose homonyms = .ok c ∧
    (homonyms.childElements ["scene"]).map (fun el =>
      (Element.sceneParts el.children).filterMap fun part => part.get? "id") = [["box-0"]] ∧
    (c.scenes.map fun scene => scene.allComponents.map Component.id) = [["box-0", "box-0"]] ∧
    ¬ ["box-0", "box-0"].Nodup := by
  have htest : (compose homonyms).toOption.any (fun c : Composition Float =>
      (c.scenes.map fun scene => scene.allComponents.map Component.id) =
        [["box-0", "box-0"]]) = true := by
    decide +kernel
  obtain ⟨c, hc, htest⟩ := exists_ok_of_any htest
  exact ⟨c, hc, by decide +kernel, of_decide_eq_true htest, by decide⟩

end Resolution

end Cuesheet
