import Cuesheet.Proofs.Resolution.Following
import Cuesheet.Proofs.Resolution.Solution

/-!
# Containers that say nothing

A stack without attributes in a stack, or a sequence without attributes in a sequence whose children
last as long as usual, can give way to its children (`Dissolves`): a scene that is resolved without
an undefined end comes to the same without it.
-/

namespace Cuesheet

open TimeScalar (Ordered Holds laterEnd)
open Attempt (Follows Blind Local IsPlaced Placed)

/-! ## Markup without a container -/

/-- Whether nothing reads the text of an element with a tag. -/
def Element.isSilentTag (tag : String) : Bool := isContainerTag tag || tag == "layer"

/-- A container without attributes that places its children as its parent would. -/
structure Transparent (parent gone : Element) : Prop where
  bare : gone.attributes = []
  placed : ∀ child ∈ gone.children, IsPlaced child
  kind : (gone.tag = "stack" ∨ gone.tag = "scene") ∧
      (parent.tag = "scene" ∨ parent.tag = "layer" ∨ parent.tag = "stack") ∨
    gone.tag = "sequence" ∧ parent.tag = "sequence" ∧
      parent.get? "default-child-duration" = none ∧ parent.get? "defaultChildDuration" = none

/-- Somewhere inside an element a transparent container is replaced by its children. The text
around it may change where nothing reads it. -/
inductive Dissolves : Element → Element → Prop
  | here {tag : String} {attributes : Entries String String} {front back : List Element}
      {gone : Element} {text text' : String}
      (transparent : Transparent ⟨tag, attributes, front ++ gone :: back, text⟩ gone) :
      Dissolves ⟨tag, attributes, front ++ gone :: back, text⟩
        ⟨tag, attributes, front ++ (gone.children ++ back), text'⟩
  | inside {tag : String} {attributes : Entries String String} {front back : List Element}
      {child child' : Element} {text text' : String} (inner : Dissolves child child')
      (read : text' = text ∨ Element.isSilentTag tag = true) :
      Dissolves ⟨tag, attributes, front ++ child :: back, text⟩
        ⟨tag, attributes, front ++ child' :: back, text'⟩

/-- Two elements that differ in their children, and in their text if nothing reads it. -/
structure Element.Like (el el' : Element) : Prop where
  tag : el'.tag = el.tag
  attributes : el'.attributes = el.attributes
  text : el'.text = el.text ∨ Element.isSilentTag el.tag = true

theorem Transparent.isContainerTag {parent gone : Element} (h : Transparent parent gone) :
    Element.isContainerTag gone.tag = true := by
  rcases h.kind with ⟨htag | htag, -⟩ | ⟨htag, -⟩ <;> rw [htag] <;> rfl

theorem Transparent.silent {parent gone : Element} (h : Transparent parent gone) :
    Element.isSilentTag parent.tag = true := by
  rcases h.kind with ⟨-, htag | htag | htag⟩ | ⟨-, htag, -⟩ <;> rw [htag] <;> rfl

theorem Dissolves.like {el el' : Element} (h : Dissolves el el') : el.Like el' := by
  cases h with
  | here transparent => exact ⟨rfl, rfl, .inr transparent.silent⟩
  | inside _ read => exact ⟨rfl, rfl, read⟩

namespace Attempt

variable {T : Type} [TimeScalar T] {setting : Setting T} {p : T → Prop} {around : Surroundings T}
  {cursor : T} {front back children children' : List Element} {child child' gone : Element}
  {tag text text' : String} {attributes : Entries String String}

/-! ## Elements that are read alike -/

theorem component_like (h : child.Like child')
    (hplain : Element.isContainerTag child.tag = false)
    (hstructural : Element.isStructuralTag child.tag = false) :
    component setting around cursor child' = component setting around cursor child := by
  obtain ⟨tag, attributes, children, text⟩ := child
  obtain ⟨tag', attributes', children', text'⟩ := child'
  obtain ⟨htag, hattributes, htext⟩ := h
  cases htag
  cases hattributes
  rcases htext with htext | hsilent
  · cases htext
    rfl
  · rw [Element.isSilentTag, Bool.or_eq_true, hplain, beq_iff_eq] at hsilent
    have hlayer : tag = "layer" := hsilent.resolve_left Bool.false_ne_true
    rw [show (Element.mk tag attributes children text).tag = "layer" from hlayer] at hstructural
    cases hstructural

theorem cueContent_like (h : child.Like child') (place : String) (front back : List Element) :
    cueContent setting place (front ++ child' :: back) =
      cueContent setting place (front ++ child :: back) := by
  induction front with
  | nil =>
      obtain ⟨tag, attributes, children, text⟩ := child
      obtain ⟨tag', attributes', children', text'⟩ := child'
      obtain ⟨htag, hattributes, htext⟩ := h
      cases htag
      cases hattributes
      rcases htext with htext | hsilent
      · cases htext
        rfl
      · -- an element that is not read says nothing in a cue
        have hother : (tag == "voice") = false ∧ (tag == "pause") = false ∧
            (tag == "bullet") = false := by
          refine ⟨?_, ?_, ?_⟩ <;>
          · refine beq_eq_false_iff_ne.mpr fun htag => ?_
            rw [htag] at hsilent
            cases hsilent
        obtain ⟨hvoice, hpause, hbullet⟩ := hother
        simp only [List.nil_append, cueContent, hvoice, hpause, hbullet, Bool.false_eq_true,
          if_false]
  | cons first front ih => simp only [List.cons_append, cueContent, ih]

/-! ## Children of a container -/

omit [TimeScalar T] in
theorem Surroundings.Alike.refl (around : Surroundings T) : around.Alike around :=
  ⟨rfl, fun _ => rfl, fun _ => rfl, fun _ => rfl, fun _ => rfl, rfl⟩

theorem Placed.Joined.refl (flow : Flow) (placed : Placed T) :
    Placed.Joined flow none placed placed :=
  ⟨rfl, fun _ => rfl, .refl flow placed.latest⟩

theorem Placed.Joined.after {flow : Flow} {placed placed' : Placed T} {found found' : List (Component T)}
    (h : Placed.Joined flow none placed placed') (hfound : found' = found) :
    Placed.Joined flow none (placed.after found) (placed'.after found') := by
  refine ⟨?_, h.cursor, h.latest⟩
  show found' ++ placed'.components = found ++ placed.components
  rw [hfound, h.components]

/-- A transparent container among the children of another one. -/
theorem contained_here (hp : Ordered p) (hcontainer : Element.isContainerTag gone.tag = true)
    (hbare : gone.attributes = []) (hsuits : around.Suits gone.tag) :
    Follows p (contained setting around cursor none (front ++ gone :: back))
      (contained setting around cursor none (front ++ (gone.children ++ back)))
      (Placed.Joined around.flow none) := by
  rw [contained_append, contained_append setting around cursor none front (gone.children ++ back)]
  refine ((contained_local setting around cursor none front).follows.knowing
    fun _ _ _ hok hends t ht => hends t ((contained_noted hok (by nofun)).1 t ht).1).bind
    (fun _ => ((contained_local setting _ _ _ _).thenPure _).grows) ?_
  rintro placed _ ⟨rfl, hlatest⟩
  refine Follows.bind (R := Placed.Joined around.flow none) ?_
    (fun _ => (Local.pure _).grows) fun rest rest' hjoined => .pure (hjoined.after rfl)
  obtain ⟨tag, attributes, children, text⟩ := gone
  obtain rfl : attributes = [] := hbare
  rw [contained, if_pos hcontainer, contained_append]
  refine ((container_follows_children hp hsuits hlatest).knowing
    fun _ _ _ hok hends t ht => hends t (container_noted hok t ht)).bind
    (fun _ => ((contained_local setting _ _ _ _).thenPure _).grows) ?_
  rintro ⟨found, stop⟩ placed' ⟨⟨hcomponents, hcursor, hjoins⟩, hstop⟩
  refine (contained_joined hp (.refl around) TimeScalar.holds_none back hcursor
    (Holds.laterEnd hlatest hstop) hjoins).bind (fun _ => (Local.pure _).grows) ?_
  exact fun rest rest' hjoined => .pure (hjoined.after hcomponents)

/-- A child that changes inside. -/
theorem contained_inside (h : child.Like child')
    (hcontainer : Element.isContainerTag child.tag = true → ∀ cursor,
      Follows p (container setting around cursor child) (container setting around cursor child') Eq) :
    Follows p (contained setting around cursor none (front ++ child :: back))
      (contained setting around cursor none (front ++ child' :: back)) Eq := by
  rw [contained_append, contained_append]
  refine (contained_local setting around cursor none front).follows.bind
    (fun _ => ((contained_local setting _ _ _ _).thenPure _).grows) ?_
  rintro placed _ rfl
  refine Follows.bind (R := Eq) ?_ (fun _ => (Local.pure _).grows) ?_
  · rw [contained, contained, h.tag]
    by_cases htag : Element.isContainerTag child.tag = true
    · rw [if_pos htag, if_pos htag]
      refine (hcontainer htag placed.cursor).bind
        (fun _ => ((contained_local setting _ _ _ _).thenPure _).grows) ?_
      rintro found _ rfl
      exact ((contained_local setting _ _ _ _).thenPure _).follows
    · rw [if_neg htag, if_neg htag]
      by_cases hstructural : Element.isStructuralTag child.tag = true
      · rw [if_pos hstructural, if_pos hstructural]
        exact (contained_local setting _ _ _ _).follows
      · rw [if_neg hstructural, if_neg hstructural, component_like h
          (Bool.eq_false_iff.mpr htag) (Bool.eq_false_iff.mpr hstructural)]
        exact ((component_local setting _ _ _).bind fun _ =>
          (contained_local setting _ _ _ _).thenPure _).follows
  · rintro rest _ rfl
    exact .pure rfl

/-- A container follows another one if its children do in whatever surroundings it passes on. -/
theorem container_follows
    (h : ∀ (inner : Surroundings T) (start : T), inner.flow = flowOf tag →
      ((Element.mk tag attributes children text).get? "default-child-duration" = none →
        (Element.mk tag attributes children text).get? "defaultChildDuration" = none →
          inner.defaultChild = TimeScalar.one) →
      Follows p (contained setting inner start none children)
        (contained setting inner start none children') (Placed.Joined inner.flow none)) :
    Follows p (container setting around cursor ⟨tag, attributes, children, text⟩)
      (container setting around cursor ⟨tag, attributes, children', text'⟩) Eq := by
  rw [container, container]
  refine Follows.bind (R := Eq) (window_local setting _ _).follows
    (fun _ => ((surroundingsOf_local setting _ _ _).bind fun _ =>
      (contained_local setting _ _ _ _).bind fun _ => (noteEnd_local _).thenPure _).grows) ?_
  rintro ⟨start, explicit⟩ _ rfl
  refine Follows.bind ((surroundingsOf_local setting _ _ _).follows.knowing
    fun _ _ _ hok _ => (surroundingsOf_spec setting hok).2)
    (fun _ => ((contained_local setting _ _ _ _).bind fun _ => (noteEnd_local _).thenPure _).grows) ?_
  rintro inner _ ⟨rfl, hflow, hdefault⟩
  refine (h inner start hflow hdefault).bind
    (fun _ => ((noteEnd_local _).thenPure _).grows) ?_
  intro placed placed' hjoined
  dsimp only
  rw [hjoined.implicitEnd, hjoined.components]
  exact ((noteEnd_local _).thenPure _).follows

/-! ## Containers and layers without one inside -/

variable {el el' : Element}

theorem transparent_suits {parent : Element} (h : Transparent parent gone)
    (hflow : around.flow = flowOf parent.tag)
    (hdefault : parent.get? "default-child-duration" = none →
      parent.get? "defaultChildDuration" = none → around.defaultChild = TimeScalar.one) :
    around.Suits gone.tag := by
  rcases h.kind with ⟨hgone, hparent⟩ | ⟨hgone, hparent, hnone, hnone'⟩
  · have hstack : around.flow = .stack := by
      rw [hflow]
      rcases hparent with htag | htag | htag <;> rw [htag] <;> rfl
    refine ⟨?_, fun hsequence => ?_⟩
    · rw [hstack]
      rcases hgone with htag | htag <;> rw [htag] <;> rfl
    · rw [hstack] at hsequence
      cases hsequence
  · refine ⟨?_, fun _ => hdefault hnone hnone'⟩
    rw [hflow, hgone, hparent]

/-- Without a transparent container inside, a container comes to the same. -/
theorem container_dissolves (hp : Ordered p) (h : Dissolves el el')
    (hcontainer : Element.isContainerTag el.tag = true) (around : Surroundings T) (cursor : T) :
    Follows p (container setting around cursor el) (container setting around cursor el') Eq := by
  induction h generalizing around cursor with
  | here transparent =>
      refine container_follows fun inner start hflow hdefault => ?_
      exact contained_here hp transparent.isContainerTag transparent.bare
        (transparent_suits transparent hflow hdefault)
  | inside inner read ih =>
      refine container_follows fun surroundings start _ _ => ?_
      refine (contained_inside inner.like fun htag cursor => ih htag _ cursor).mono ?_
      rintro placed _ rfl
      exact .refl _ placed

theorem layer_follows {sceneStart : T} {place : String}
    (h : ∀ (place : String) (start : T), Follows p
      (contained setting (top start place) start none children)
      (contained setting (top start place) start none children') (Placed.Joined .stack none)) :
    Follows p (layer setting ⟨tag, attributes, children, text⟩ sceneStart place)
      (layer setting ⟨tag, attributes, children', text'⟩ sceneStart place) Eq := by
  have hrest : ∀ {id : String} {start : T} {place : String} {stop : Option T}
      {components : List (Component T)}, Local (do
        noteEnd stop
        let z ← ofExcept (Element.number? ((Element.mk tag attributes children text).get? "z"))
        let styles ← ofExcept ((Element.mk tag attributes children text).map? "styles" place)
        let markup ← ofExcept ((Element.mk tag attributes children text).map? "markup" place)
        return {
          id
          start := some start
          stop
          visible := (Element.mk tag attributes children text).flag? "visible"
          z
          styles
          markup
          components } : Attempt T (Layer T)) :=
    (noteEnd_local _).bind fun _ => (Local.ofExcept _).bind fun _ =>
      (Local.ofExcept _).bind fun _ => (Local.ofExcept _).thenPure _
  have hid : (Element.mk tag attributes children' text').get? "id" =
      (Element.mk tag attributes children text).get? "id" := rfl
  unfold layer
  rw [hid]
  cases (Element.mk tag attributes children text).get? "id" with
  | none => exact (Local.throw _).follows
  | some id =>
      refine Follows.bind (R := Eq) (window_local setting _ _).follows
        (fun _ => ((contained_local setting _ _ _ _).bind fun _ => hrest).grows) ?_
      rintro ⟨start, explicit⟩ _ rfl
      refine (h _ start).bind (fun _ => hrest.grows) fun placed placed' hjoined => ?_
      have hlatest : placed'.latest = placed.latest := hjoined.latest
      rw [hjoined.components, hlatest]
      exact hrest.follows

theorem layer_dissolves (hp : Ordered p) (h : Dissolves el el') (htag : el.tag = "layer")
    (sceneStart : T) (place : String) :
    Follows p (layer setting el sceneStart place) (layer setting el' sceneStart place) Eq := by
  cases h with
  | here transparent =>
      refine layer_follows fun place start => ?_
      refine contained_here hp transparent.isContainerTag transparent.bare
        (transparent_suits transparent ?_ fun _ _ => rfl)
      rw [htag]
      rfl
  | inside inner read =>
      refine layer_follows fun place start => ?_
      refine (contained_inside inner.like fun hcontainer cursor =>
        container_dissolves hp inner hcontainer _ cursor).mono ?_
      rintro placed _ rfl
      exact .refl _ placed

/-! ## Scenes without one inside -/

theorem cue_dissolves (h : Dissolves el el') (htag : el.tag = "cue") (sceneStart scale : T)
    (place : String) :
    cue setting el' sceneStart scale place = cue setting el sceneStart scale place := by
  cases h with
  | here transparent =>
      have hsilent := transparent.silent
      rw [htag] at hsilent
      cases hsilent
  | inside inner read =>
      unfold cue
      simp only [cueContent_like inner.like]
      rfl

theorem pause_like (h : el.Like el') (place : String) :
    pause setting el' place = pause setting el place := by
  obtain ⟨tag, attributes, children, text⟩ := el
  obtain ⟨tag', attributes', children', text'⟩ := el'
  obtain ⟨htag, hattributes, -⟩ := h
  cases htag
  cases hattributes
  rfl

theorem sceneContent_here (hp : Ordered p) {start scale : T} {place : String}
    (htag : gone.tag = "stack" ∨ gone.tag = "scene") (hbare : gone.attributes = [])
    (hplaced : ∀ child ∈ gone.children, IsPlaced child) :
    Follows p (sceneContent setting start scale place (front ++ gone :: back))
      (sceneContent setting start scale place (front ++ (gone.children ++ back))) Eq := by
  rw [sceneContent_append,
    sceneContent_append setting start scale place front (gone.children ++ back)]
  refine (sceneContent_blind setting start scale place front).follows.bind
    (fun _ => ((sceneContent_blind setting _ _ _ _).thenPure _).grows) ?_
  rintro content _ rfl
  refine Follows.bind (R := Eq) ?_ (fun _ => (Local.pure _).grows) (by
    rintro rest _ rfl
    exact .pure rfl)
  obtain ⟨tag, attributes, children, text⟩ := gone
  obtain rfl : attributes = [] := hbare
  have hsuits : (top start place : Surroundings T).Suits tag := by
    refine ⟨?_, nofun⟩
    rcases htag with htag | htag <;> rw [show tag = _ from htag] <;> rfl
  rw [sceneContent_append, sceneContent_placed setting start scale place none hplaced, bind_assoc,
    sceneContent]
  have hother : (tag == "cue") = false ∧ (tag == "pause") = false ∧ (tag == "layer") = false ∧
      Element.isContainerTag tag = true := by
    rcases htag with htag | htag <;> rw [show tag = _ from htag] <;> decide
  simp only [hother, Bool.false_eq_true, if_false, if_true, pure_bind]
  refine (container_follows_children hp hsuits TimeScalar.holds_none).bind
    (fun _ => ((sceneContent_blind setting _ _ _ _).thenPure _).grows) ?_
  rintro ⟨found, stop⟩ placed' ⟨rfl, -, -⟩
  exact ((sceneContent_blind setting _ _ _ _).thenPure _).follows

theorem sceneContent_inside (hp : Ordered p) {start scale : T} {place : String}
    (h : Dissolves child child') :
    Follows p (sceneContent setting start scale place (front ++ child :: back))
      (sceneContent setting start scale place (front ++ child' :: back)) Eq := by
  have hrest : ∀ {α : Type} {m m' : Attempt T α} {f : α → SceneContent T → SceneContent T},
      Follows p m m' Eq → Follows p
        (m >>= fun a => sceneContent setting start scale place back >>= fun c => pure (f a c))
        (m' >>= fun a => sceneContent setting start scale place back >>= fun c => pure (f a c))
        Eq := by
    intro α m m' f hm
    have hblind : ∀ a, Blind (sceneContent setting start scale place back >>= fun c =>
        pure (f a c)) := fun a => (sceneContent_blind setting _ _ _ _).thenPure _
    refine hm.bind (fun a => (hblind a).grows) ?_
    rintro a _ rfl
    exact (hblind a).follows
  rw [sceneContent_append, sceneContent_append]
  refine (sceneContent_blind setting start scale place front).follows.bind
    (fun _ => ((sceneContent_blind setting _ _ _ _).thenPure _).grows) ?_
  rintro content _ rfl
  refine Follows.bind (R := Eq) ?_ (fun _ => (Local.pure _).grows) (by
    rintro rest _ rfl
    exact .pure rfl)
  have hlike := h.like
  rw [sceneContent, sceneContent, hlike.tag]
  split
  · rename_i htag
    rw [cue_dissolves h (eq_of_beq htag)]
    exact hrest (cue_blind setting _ _ _ _).follows
  · split
    · rw [pause_like hlike]
      exact hrest (pause_local setting _ _).follows
    · split
      · rename_i htag
        exact hrest (layer_dissolves hp h (eq_of_beq htag) _ _)
      · split
        · rename_i htag
          exact hrest (container_dissolves hp h htag _ _)
        · rename_i htag
          split
          · exact (sceneContent_blind setting _ _ _ _).follows
          · rename_i hstructural
            rw [component_like hlike (Bool.eq_false_iff.mpr htag)
              (Bool.eq_false_iff.mpr hstructural)]
            exact hrest (component_local setting _ _ _).follows

end Attempt

end Cuesheet
