import Cuesheet.Proofs.Data.Maps
import Cuesheet.Proofs.Resolution.Ending
import Cuesheet.Proofs.Resolution.Formed

/-!
# Styles and markup from the innermost definition

A component takes its styles from its own attribute and from those of the containers around it, up
to its layer or scene: these attributes alone decide (`cascaded`), a key is there if one of them
defines it, and the innermost of them gives its value (`at?_cascaded`). What a container passes on
is what those around its children come to (`Passes`), so that by induction over the tree every
component comes out as its chain of containers says (`contained_of`). All of that holds of markup
hints as well (`compose_cascades`).
-/

namespace Cuesheet

/-! ## Maps of several elements -/

namespace Element

/-- The map in an attribute; none without the attribute, or if there is no map in it. -/
def mapIn (raw : Option String) : Option Fields :=
  match Attribute.map? raw with
  | .ok fields => fields
  | .error _ => none

/-- An element gives a key a value in the map that is in one of its attributes. -/
def Defines (el : Element) (name key : String) (d : Datum) : Prop :=
  Fields.at? (mapIn (el.get? name)) key = some d

/-- What the maps in some attributes come to, the innermost one first. -/
def cascaded : List (Option String) → Option Fields
  | [] => none
  | raw :: outer => Fields.cascade (cascaded outer) (mapIn raw)

theorem nodup_of_mapIn {raw : Option String} : ∀ fields ∈ mapIn raw, (Entries.keys fields).Nodup := by
  intro fields h
  unfold mapIn at h
  split at h
  · rename_i hmap
    cases h
    exact Attribute.nodup_of_map? hmap
  · cases h

/-- The innermost map that has a key gives its value. -/
theorem at?_cascaded (raws : List (Option String)) (key : String) :
    Fields.at? (cascaded raws) key = raws.findSome? fun raw => Fields.at? (mapIn raw) key := by
  induction raws with
  | nil => rfl
  | cons raw outer ih =>
      rw [cascaded, Fields.at?_cascade _ nodup_of_mapIn, ih, List.findSome?_cons]
      cases Fields.at? (mapIn raw) key <;> rfl

theorem mapIn_of_map? {el : Element} {name place : String} {fields : Option Fields}
    (h : el.map? name place = .ok fields) : mapIn (el.get? name) = fields := by
  unfold map? at h
  unfold mapIn
  split at h
  · cases h
  · rename_i hmap
    cases h
    rw [hmap]

mutual

/-- The components in an element, in order: each with the containers around it, from the inside
out, the component itself in front. -/
def chains (around : List Element) : Element → List (List Element)
  | ⟨tag, attributes, children, text⟩ =>
    if isContainerTag tag then chainsAll (⟨tag, attributes, children, text⟩ :: around) children
    else if isStructuralTag tag then []
    else [⟨tag, attributes, children, text⟩ :: around]

/-- The components in several elements. -/
def chainsAll (around : List Element) : List Element → List (List Element)
  | [] => []
  | child :: rest => chains around child ++ chainsAll around rest

end

theorem chains_structural {around : List Element} {el : Element} (htag : ¬ isContainerTag el.tag = true)
    (hstructural : isStructuralTag el.tag = true) : chains around el = [] := by
  cases el
  rw [chains, if_neg htag, if_pos hstructural]

theorem chains_component {around : List Element} {el : Element} (htag : ¬ isContainerTag el.tag = true)
    (hstructural : ¬ isStructuralTag el.tag = true) : chains around el = [el :: around] := by
  cases el
  rw [chains, if_neg htag, if_neg hstructural]

/-- A map is what the attributes with a name say together: those of a component and of the
containers around it. -/
structure Cascades (name : String) (chain : List Element) (fields : Option Fields) : Prop where
  /-- Nothing else counts. -/
  alone : fields = cascaded (chain.map fun el => el.get? name)
  keys : ∀ key, (∃ d, Fields.at? fields key = some d) ↔ ∃ el ∈ chain, ∃ d, el.Defines name key d
  innermost : ∀ key inner el outer d, chain = inner ++ el :: outer → el.Defines name key d →
    (∀ e ∈ inner, ∀ d, ¬ e.Defines name key d) → Fields.at? fields key = some d

theorem cascades_cascaded (name : String) (chain : List Element) :
    Cascades name chain (cascaded (chain.map fun el => el.get? name)) := by
  have hat : ∀ key, Fields.at? (cascaded (chain.map fun el => el.get? name)) key =
      chain.findSome? fun el => Fields.at? (mapIn (el.get? name)) key := fun key => by
    rw [at?_cascaded, List.findSome?_map]
    rfl
  refine ⟨rfl, fun key => ?_, fun key inner el outer d hchain hdefines hinner => ?_⟩
  · rw [hat, ← Option.isSome_iff_exists, List.findSome?_isSome_iff]
    exact exists_congr fun el => and_congr_right fun _ => Option.isSome_iff_exists
  · rw [hat, hchain]
    refine List.findSome?_eq_some_iff.mpr ⟨inner, el, outer, rfl, hdefines, fun e he => ?_⟩
    exact Option.eq_none_iff_forall_ne_some.mpr (hinner e he)

end Element

/-- A component is that of the first element of a chain, and its styles and markup are those of the
chain. -/
structure Component.Of {T : Type} (chain : List Element) (c : Component T) : Prop where
  itself : ∃ el around, chain = el :: around ∧ c.type = Text.pascalCase el.tag ∧
    (∀ id, el.get? "id" = some id → c.id = id) ∧ c.text = el.words ∧ c.handlers = el.handlers
  styles : Element.Cascades "styles" chain c.styles
  markup : Element.Cascades "markup" chain c.markup

namespace Attempt

variable {T : Type} [TimeScalar T] {setting : Setting T} {around : Surroundings T} {cursor : T}
  {latest : Option T} {el : Element} {outer : List Element} {draft draft' : Draft T}

/-! ## Components and containers -/

/-- What surrounds some elements passes on what the containers around them say. -/
structure Passes (around : Surroundings T) (outer : List Element) : Prop where
  styles : around.styles = Element.cascaded (outer.map fun el => el.get? "styles")
  markup : around.markup = Element.cascaded (outer.map fun el => el.get? "markup")

theorem top_passes (start : T) (place : String) : Passes (top start place) [] := ⟨rfl, rfl⟩

theorem component_of (hpass : Passes around outer) {c : Component T}
    (h : component setting around cursor el draft = .ok (c, draft')) :
    Component.Of (el :: outer) c := by
  obtain ⟨⟨start, explicit⟩, _, -, h⟩ := bind_ok h
  obtain ⟨_, _, -, h⟩ := bind_ok h
  obtain ⟨index, _, -, h⟩ := bind_ok h
  obtain ⟨props, _, -, h⟩ := bind_ok h
  obtain ⟨z, _, -, h⟩ := bind_ok h
  obtain ⟨styles, _, hstyles, h⟩ := bind_ok h
  obtain ⟨markup, _, hmarkup, h⟩ := bind_ok h
  cases h
  have hstyles := Element.mapIn_of_map? (eq_of_ofExcept hstyles)
  have hmarkup := Element.mapIn_of_map? (eq_of_ofExcept hmarkup)
  refine ⟨⟨el, outer, rfl, rfl, fun id hid => ?_, rfl, rfl⟩, ?_, ?_⟩
  · dsimp only
    rw [hid]
    rfl
  · rw [hpass.styles, ← hstyles]
    exact Element.cascades_cascaded "styles" (el :: outer)
  · rw [hpass.markup, ← hmarkup]
    exact Element.cascades_cascaded "markup" (el :: outer)

theorem surroundingsOf_passes (hpass : Passes around outer) {start : T} {inner : Surroundings T}
    (h : surroundingsOf setting around start el draft = .ok (inner, draft')) :
    Passes inner (el :: outer) := by
  obtain ⟨styles, _, hstyles, h⟩ := bind_ok h
  obtain ⟨markup, _, hmarkup, h⟩ := bind_ok h
  obtain ⟨defaultChild, _, -, h⟩ := bind_ok h
  cases h
  refine ⟨?_, ?_⟩
  · rw [List.map_cons, Element.cascaded, Element.mapIn_of_map? (eq_of_ofExcept hstyles),
      ← hpass.styles]
  · rw [List.map_cons, Element.cascaded, Element.mapIn_of_map? (eq_of_ofExcept hmarkup),
      ← hpass.markup]

mutual

theorem container_of : ∀ (el : Element) {around : Surroundings T} {cursor : T}
    {outer : List Element} {draft draft' : Draft T} {components : List (Component T)}
    {stop : Option T}, Element.isContainerTag el.tag = true → Passes around outer →
      container setting around cursor el draft = .ok ((components, stop), draft') →
        List.Forall₂ Component.Of (Element.chains outer el) components
  | ⟨tag, attributes, children, text⟩, around, cursor, outer, draft, draft', components, stop,
      htag, hpass, h => by
      obtain ⟨start, explicit, _, inner, _, placed, _, -, hinner, hplaced, rfl, -, -⟩ :=
        container_spec h
      rw [Element.chains, if_pos htag]
      exact contained_of children (surroundingsOf_passes hpass hinner) hplaced

theorem contained_of : ∀ (children : List Element) {around : Surroundings T} {cursor : T}
    {latest : Option T} {outer : List Element} {draft draft' : Draft T} {placed : Placed T},
      Passes around outer →
      contained setting around cursor latest children draft = .ok (placed, draft') →
        List.Forall₂ Component.Of (Element.chainsAll outer children) placed.components
  | [], around, cursor, latest, outer, draft, draft', placed, _, h => by
      rw [contained] at h
      cases h
      exact .nil
  | child :: rest, around, cursor, latest, outer, draft, draft', placed, hpass, h => by
      rw [contained] at h
      rw [Element.chainsAll]
      split at h
      · rename_i htag
        obtain ⟨⟨found, stop⟩, _, hfound, h⟩ := bind_ok h
        obtain ⟨others, _, hothers, h⟩ := bind_ok h
        cases h
        exact List.rel_append (container_of child htag hpass hfound)
          (contained_of rest hpass hothers)
      · rename_i htag
        split at h
        · rename_i hstructural
          rw [Element.chains_structural htag hstructural]
          exact contained_of rest hpass h
        · rename_i hstructural
          rw [Element.chains_component htag hstructural]
          obtain ⟨c, _, hc, h⟩ := bind_ok h
          obtain ⟨others, _, hothers, h⟩ := bind_ok h
          cases h
          exact .cons (component_of hpass hc) (contained_of rest hpass hothers)

end

/-! ## Scenes -/

/-- A layer is that of an element, and its components are those of the chains in it. -/
structure LayerOf (el : Element) (l : Layer T) : Prop where
  id : el.get? "id" = some l.id
  components : List.Forall₂ Component.Of (Element.chainsAll [] el.children) l.components

theorem layer_of {start : T} {place : String} {l : Layer T}
    (h : layer setting el start place draft = .ok (l, draft')) : LayerOf el l := by
  unfold layer at h
  cases hid : el.get? "id" with
  | none => rw [hid] at h; cases h
  | some id =>
      rw [hid] at h
      obtain ⟨⟨own, explicit⟩, _, -, h⟩ := bind_ok h
      obtain ⟨placed, _, hplaced, h⟩ := bind_ok h
      obtain ⟨_, _, -, h⟩ := bind_ok h
      obtain ⟨z, _, -, h⟩ := bind_ok h
      obtain ⟨styles, _, -, h⟩ := bind_ok h
      obtain ⟨markup, _, -, h⟩ := bind_ok h
      cases h
      exact ⟨hid, contained_of el.children (top_passes own _) hplaced⟩

/-- The layers and components of a scene are those of the chains among some children. -/
structure ContentOf (children : List Element) (layers : List (Layer T))
    (components : List (Component T)) : Prop where
  layers : List.Forall₂ LayerOf (children.filter fun child => child.tag == "layer") layers
  components : List.Forall₂ Component.Of (Element.chainsAll [] children) components

namespace ContentOf

variable {children : List Element} {layers : List (Layer T)} {components : List (Component T)}

omit [TimeScalar T]

theorem layer (htag : (el.tag == "layer") = true) {l : Layer T} (hl : LayerOf el l)
    (h : ContentOf children layers components) :
    ContentOf (el :: children) (l :: layers) components := by
  refine ⟨?_, ?_⟩
  · rw [List.filter_cons, if_pos htag]
    exact .cons hl h.layers
  · have htag : el.tag = "layer" := eq_of_beq htag
    rw [Element.chainsAll, Element.chains_structural (by rw [htag]; decide) (by rw [htag]; decide)]
    exact h.components

theorem found (front : List (Component T)) (htag : ¬ (el.tag == "layer") = true)
    (hfront : List.Forall₂ Component.Of (Element.chains [] el) front)
    (h : ContentOf children layers components) :
    ContentOf (el :: children) layers (front ++ components) := by
  refine ⟨?_, ?_⟩
  · rw [List.filter_cons, if_neg htag]
    exact h.layers
  · rw [Element.chainsAll]
    exact List.rel_append hfront h.components

/-- What comes to nothing can stand anywhere. -/
theorem skip (htag : ¬ (el.tag == "layer") = true)
    (hcontainer : ¬ Element.isContainerTag el.tag = true)
    (hstructural : Element.isStructuralTag el.tag = true)
    (h : ContentOf children layers components) : ContentOf (el :: children) layers components := by
  refine h.found [] htag ?_
  rw [Element.chains_structural hcontainer hstructural]
  exact .nil

end ContentOf

theorem sceneContent_of {start scale : T} {place : String} :
    ∀ {children : List Element} {draft draft' : Draft T} {content : SceneContent T},
      sceneContent setting start scale place children draft = .ok (content, draft') →
        ContentOf children content.layers content.components
  | [], draft, draft', content, h => by
      rw [sceneContent] at h
      cases h
      exact ⟨.nil, .nil⟩
  | child :: rest, draft, draft', content, h => by
      rw [sceneContent] at h
      split at h
      · rename_i htag
        have htag : child.tag = "cue" := eq_of_beq htag
        obtain ⟨c, _, -, h⟩ := bind_ok h
        obtain ⟨others, _, hothers, h⟩ := bind_ok h
        cases h
        exact (sceneContent_of hothers).skip (by rw [htag]; decide) (by rw [htag]; decide)
          (by rw [htag]; decide)
      · split at h
        · rename_i htag
          have htag : child.tag = "pause" := eq_of_beq htag
          obtain ⟨p, _, -, h⟩ := bind_ok h
          obtain ⟨others, _, hothers, h⟩ := bind_ok h
          cases h
          exact (sceneContent_of hothers).skip (by rw [htag]; decide) (by rw [htag]; decide)
            (by rw [htag]; decide)
        · split at h
          · rename_i htag
            obtain ⟨l, _, hl, h⟩ := bind_ok h
            obtain ⟨others, _, hothers, h⟩ := bind_ok h
            cases h
            exact (sceneContent_of hothers).layer htag (layer_of hl)
          · rename_i hlayer
            split at h
            · rename_i htag
              obtain ⟨⟨found, stop⟩, _, hfound, h⟩ := bind_ok h
              obtain ⟨others, _, hothers, h⟩ := bind_ok h
              cases h
              exact (sceneContent_of hothers).found found hlayer
                (container_of child htag (top_passes start place) hfound)
            · rename_i htag
              split at h
              · rename_i hstructural
                exact (sceneContent_of h).skip hlayer htag hstructural
              · rename_i hstructural
                obtain ⟨c, _, hc, h⟩ := bind_ok h
                obtain ⟨others, _, hothers, h⟩ := bind_ok h
                cases h
                refine (sceneContent_of hothers).found [c] hlayer ?_
                rw [Element.chains_component htag hstructural]
                exact .cons (component_of (top_passes start place) hc) .nil

/-- What a scene holds is what its children come to. -/
theorem run_content {id : String} {s : Scene T} (h : run setting id el = .ok s) :
    ContentOf el.children s.layers s.components := by
  unfold run at h
  cases hrun : scene setting id el {} with
  | error stop => rw [hrun] at h; cases h
  | ok r =>
      rw [hrun] at h
      cases h
      obtain ⟨start, _, -, hrun⟩ := bind_ok hrun
      obtain ⟨_, _, -, hrun⟩ := bind_ok hrun
      obtain ⟨explicit, _, -, hrun⟩ := bind_ok hrun
      obtain ⟨_, _, -, hrun⟩ := bind_ok hrun
      obtain ⟨content, _, hcontent, hclose⟩ := bind_ok hrun
      obtain ⟨-, ⟨-, hlayers, hcomponents⟩, -⟩ := closeScene_ok hclose
      rw [hlayers, hcomponents]
      exact sceneContent_of hcontent

end Attempt

namespace Resolution

variable {T : Type} [TimeScalar T]

/-- A scene is that of an element, and what it holds is what the children of the element come to. -/
structure SceneOf (el : Element) (s : Scene T) : Prop where
  id : el.get? "id" = some s.id
  content : Attempt.ContentOf el.children s.layers s.components

/-- All components of a composition have the styles and the markup that they and the containers
around them define, the innermost of them winning. -/
theorem compose_cascades {root : Element} {c : Composition T} (h : compose root = .ok c) :
    List.Forall₂ SceneOf (root.childElements ["scene"]) c.scenes := by
  obtain ⟨hlength, hruns⟩ := compose_run h
  refine List.forall₂_iff_get.mpr ⟨hlength.symm, fun index hel hs => ?_⟩
  obtain ⟨el, hget, hid, hrun⟩ := hruns index _ (List.getElem?_eq_getElem hs)
  obtain ⟨_, rfl⟩ := List.getElem?_eq_some_iff.mp hget
  exact ⟨hid, Attempt.run_content hrun⟩

/-- A box in a stack in a sequence, and one in a scene in a layer, each of them with styles. -/
def draped : Element where
  tag := "vml"
  attributes := [("id", "film")]
  children := [{
    tag := "scene"
    attributes := [("id", "intro"), ("styles", "\x7b\"size\": \"small\"\x7d")]
    children := [
      { tag := "sequence"
        attributes := [("styles", "\x7b\"color\": \"red\", \"font\": \"mono\"\x7d")]
        children := [
          { tag := "stack"
            attributes := [("styles", "\x7b\"color\": \"blue\"\x7d")]
            children := [
              { tag := "box", attributes := [("styles", "\x7b\"edge\": \"thin\"\x7d")] }] },
          { tag := "box", attributes := [("markup", "\x7b\"role\": \"note\"\x7d")] }] },
      { tag := "layer"
        attributes := [("id", "top"), ("styles", "\x7b\"color\": \"green\"\x7d")]
        children := [{
          tag := "scene"
          attributes := [("id", "inset"), ("styles", "\x7b\"edge\": \"thick\"\x7d")]
          children := [{ tag := "box" }] }] }] }]

theorem compose_cascades_draped : ∃ c : Composition Float, compose draped = .ok c ∧
    (c.scenes.map fun scene => scene.components.map fun c => c.styles.map Entries.keys) =
      [[some ["color", "font", "edge"], some ["color", "font"]]] ∧
    (c.scenes.map fun scene => scene.layers.map fun l =>
      l.components.map fun c => c.styles.map Entries.keys) = [[[some ["edge"]]]] ∧
    List.Forall₂ SceneOf (draped.childElements ["scene"]) c.scenes := by
  have htest : (compose draped).toOption.any (fun c : Composition Float =>
      (c.scenes.map fun scene => scene.components.map fun c => c.styles.map Entries.keys) =
        [[some ["color", "font", "edge"], some ["color", "font"]]] &&
      (c.scenes.map fun scene => scene.layers.map fun l =>
        l.components.map fun c => c.styles.map Entries.keys) = [[[some ["edge"]]]]) = true := by
    decide +kernel
  obtain ⟨c, hc, htest⟩ := exists_ok_of_any htest
  simp only [Bool.and_eq_true, decide_eq_true_eq] at htest
  exact ⟨c, hc, htest.1, htest.2, compose_cascades hc⟩

end Resolution

end Cuesheet
