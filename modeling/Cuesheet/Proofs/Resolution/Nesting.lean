import Cuesheet.Proofs.Resolution.Logging
import Cuesheet.Proofs.Time.Latest

/-!
# Children in parts and in other containers

Children are placed one after the other, so those in front can be placed first (`contained_append`,
`sceneContent_append`), and a scene places what a stack would place like a stack
(`sceneContent_placed`). What a child comes to depends on its container only through a few things
(`Surroundings.Alike`), which a container without attributes takes over from the one around it
(`inside_alike`).
-/

namespace Cuesheet.Attempt

variable {T : Type}

/-- The children of a container that come to something in it. -/
def IsPlaced (el : Element) : Prop :=
  Element.isContainerTag el.tag = true ∨ Element.isStructuralTag el.tag = false

/-- The same children, with components in front. -/
def Placed.after (front : List (Component T)) (placed : Placed T) : Placed T :=
  { placed with components := front ++ placed.components }

/-- The content of the first children, then that of the others. -/
def SceneContent.append (front back : SceneContent T) : SceneContent T where
  items := front.items ++ back.items
  layers := front.layers ++ back.layers
  components := front.components ++ back.components

variable [TimeScalar T] (setting : Setting T)

/-! ## Children in two parts -/

theorem contained_append (around : Surroundings T) (cursor : T) (latest : Option T)
    (front back : List Element) :
    contained setting around cursor latest (front ++ back) = (do
      let placed ← contained setting around cursor latest front
      let rest ← contained setting around placed.cursor placed.latest back
      return rest.after placed.components) := by
  induction front generalizing cursor latest with
  | nil =>
      rw [contained, pure_bind]
      exact (bind_pure _).symm
  | cons child front ih =>
      rw [List.cons_append, contained, contained]
      split
      · simp only [ih, bind_assoc, pure_bind, Placed.after, List.append_assoc]
      · split
        · exact ih cursor latest
        · simp only [ih, bind_assoc, pure_bind, Placed.after, List.cons_append]

theorem sceneContent_append (start scale : T) (place : String) (front back : List Element) :
    sceneContent setting start scale place (front ++ back) = (do
      let content ← sceneContent setting start scale place front
      let rest ← sceneContent setting start scale place back
      return content.append rest) := by
  induction front with
  | nil =>
      rw [sceneContent, pure_bind]
      exact (bind_pure _).symm
  | cons child front ih =>
      rw [List.cons_append, sceneContent, sceneContent]
      split
      · simp only [ih, bind_assoc, pure_bind, SceneContent.append, List.cons_append]
      · split
        · simp only [ih, bind_assoc, pure_bind, SceneContent.append, List.cons_append]
        · split
          · simp only [ih, bind_assoc, pure_bind, SceneContent.append, List.cons_append]
          · split
            · simp only [ih, bind_assoc, pure_bind, SceneContent.append, List.append_assoc]
            · split
              · exact ih
              · simp only [ih, bind_assoc, pure_bind, SceneContent.append, List.cons_append]

omit [TimeScalar T] in
theorem advance_stack (cursor : T) (stop : Option T) : advance .stack cursor stop = cursor := by
  cases stop <;> rfl

/-- What a stack would place a scene places like a stack. -/
theorem sceneContent_placed (start scale : T) (place : String) (latest : Option T)
    {children : List Element} (h : ∀ child ∈ children, IsPlaced child) :
    sceneContent setting start scale place children = (do
      let placed ← contained setting (top start place) start latest children
      return { components := placed.components }) := by
  induction children generalizing latest with
  | nil => rw [sceneContent, contained, pure_bind]
  | cons child rest ih =>
      obtain ⟨hchild, hrest⟩ := List.forall_mem_cons.mp h
      have hnone : (child.tag == "cue") = false ∧ (child.tag == "pause") = false ∧
          (child.tag == "layer") = false := by
        refine ⟨?_, ?_, ?_⟩ <;>
        · refine beq_eq_false_iff_ne.mpr fun htag => ?_
          rw [IsPlaced, htag] at hchild
          revert hchild
          decide
      obtain ⟨hcue, hpause, hlayer⟩ := hnone
      have hflow : (top start place : Surroundings T).flow = .stack := rfl
      rw [sceneContent, contained, hcue, hpause, hlayer]
      simp only [Bool.false_eq_true, if_false, hflow, advance_stack]
      split
      · simp only [bind_assoc, pure_bind]
        congr 1
        funext found
        simp only [ih (TimeScalar.laterEnd latest found.2) hrest, bind_assoc, pure_bind]
      · split
        · exact ih latest hrest
        · simp only [bind_assoc, pure_bind]
          congr 1
          funext c
          simp only [ih (TimeScalar.laterEnd latest c.stop) hrest, bind_assoc, pure_bind]

/-! ## Other surroundings -/

omit [TimeScalar T] in
/-- Surroundings in which every child comes to the same. -/
structure Surroundings.Alike (around around' : Surroundings T) : Prop where
  flow : around'.flow = around.flow
  base : around.flow = .stack → around'.base = around.base
  styles : ∀ child, Fields.cascade around'.styles child = Fields.cascade around.styles child
  markup : ∀ child, Fields.cascade around'.markup child = Fields.cascade around.markup child
  defaultChild : around.flow = .sequence → around'.defaultChild = around.defaultChild
  place : around'.place = around.place

namespace Surroundings.Alike

variable {around around' : Surroundings T} {cursor cursor' : T} {setting}

omit [TimeScalar T] in
theorem ownBase (h : around.Alike around') (hcursor : around.flow = .sequence → cursor' = cursor) :
    around'.ownBase cursor' = around.ownBase cursor := by
  unfold Surroundings.ownBase
  rw [h.flow]
  cases hflow : around.flow with
  | sequence => exact hcursor hflow
  | stack => exact h.base hflow

theorem component (h : around.Alike around') (hcursor : around.flow = .sequence → cursor' = cursor)
    (el : Element) :
    component setting around' cursor' el = component setting around cursor el := by
  unfold Attempt.component
  simp only [h.ownBase hcursor, h.flow, h.place, h.styles, h.markup]
  cases hflow : around.flow with
  | sequence => rw [h.defaultChild hflow]
  | stack =>
      congr 1
      funext span
      cases span.2 <;> rfl

theorem surroundingsOf (h : around.Alike around') (start : T) (el : Element) :
    surroundingsOf setting around' start el = surroundingsOf setting around start el := by
  unfold Attempt.surroundingsOf
  simp only [h.place, h.styles, h.markup]

theorem container (h : around.Alike around') (hcursor : around.flow = .sequence → cursor' = cursor)
    (el : Element) :
    container setting around' cursor' el = container setting around cursor el := by
  cases el
  rw [Attempt.container, Attempt.container]
  simp only [h.ownBase hcursor, h.surroundingsOf]

end Surroundings.Alike

/-! ## Containers without attributes -/

/-- How the children of a container with a tag follow each other. -/
def flowOf (tag : String) : Flow := if tag == "sequence" then .sequence else .stack

/-- What a container without attributes passes on to its children. -/
def Surroundings.inside (around : Surroundings T) (tag : String) (start : T) : Surroundings T where
  base := start
  flow := flowOf tag
  styles := Fields.cascade around.styles none
  markup := Fields.cascade around.markup none
  defaultChild := TimeScalar.one
  place := around.place

theorem cascade_cascade_none (parent child : Option Fields) :
    Fields.cascade (Fields.cascade parent none) child = Fields.cascade parent child := by
  rcases parent with _ | (_ | _) <;> rfl

theorem container_bare (around : Surroundings T) (cursor : T) (tag : String)
    (children : List Element) (text : String) :
    container setting around cursor ⟨tag, [], children, text⟩ = (do
      let inner := around.inside tag (around.ownBase cursor)
      let placed ← contained setting inner inner.base none children
      let stop := placed.implicitEnd inner.flow
      noteEnd stop
      return (placed.components, stop)) := by
  rw [container]
  rfl

/-- What surroundings pass on to the children of an element: its flow, and where it says nothing
else the usual duration. -/
theorem surroundingsOf_spec {around inner : Surroundings T} {start : T} {el : Element}
    {draft draft' : Draft T}
    (h : surroundingsOf setting around start el draft = .ok (inner, draft')) :
    inner.base = start ∧ inner.flow = flowOf el.tag ∧
      (el.get? "default-child-duration" = none → el.get? "defaultChildDuration" = none →
        inner.defaultChild = TimeScalar.one) := by
  obtain ⟨styles, between, -, h⟩ := bind_ok h
  obtain ⟨markup, between', -, h⟩ := bind_ok h
  obtain ⟨defaultChild, between'', hdefault, h⟩ := bind_ok h
  cases h
  refine ⟨rfl, rfl, fun hnone hnone' => ?_⟩
  simp only [defaultChildOf, time?, hnone, hnone', pure_bind] at hdefault
  cases hdefault
  rfl

/-! ## What components and containers come to -/

section

variable {setting} {around : Surroundings T} {cursor : T} {el : Element}
  {draft draft' : Draft T}

omit [TimeScalar T] in
theorem noteEnd_ok {stop : Option T} {u : Unit} (h : noteEnd stop draft = .ok (u, draft')) :
    draft' = { draft with ends := draft.ends ++ stop.toList } := by
  cases stop with
  | none => cases h; rw [Option.toList_none, List.append_nil]
  | some t => cases h; rfl

omit [TimeScalar T] in
theorem ofExcept_ok {α : Type} {x : Except ResolutionFault α} {a : α}
    (h : ofExcept x draft = .ok (a, draft')) : draft' = draft := by
  cases x with
  | ok b => cases h; rfl
  | error fault => cases h

omit [TimeScalar T] in
theorem eq_of_ofExcept {α : Type} {x : Except ResolutionFault α} {a : α}
    (h : ofExcept x draft = .ok (a, draft')) : x = .ok a := by
  cases x with
  | ok b => cases h; rfl
  | error fault => cases h

/-- The end of a component: given, or in a sequence after the usual duration. -/
def Surroundings.stopAfter (around : Surroundings T) (start : T) : Option T → Option T
  | some t => some t
  | none =>
    match around.flow with
    | .sequence => some (TimeScalar.add start around.defaultChild)
    | .stack => none

theorem component_spec {c : Component T}
    (h : component setting around cursor el draft = .ok (c, draft')) :
    ∃ start explicit between,
      window setting el (around.ownBase cursor) draft = .ok ((start, explicit), between) ∧
      c.start = some start ∧ c.stop = around.stopAfter start explicit ∧
      draft'.ends = between.ends ++ c.stop.toList := by
  obtain ⟨⟨start, explicit⟩, between, hwindow, h⟩ := bind_ok h
  obtain ⟨_, noted, hnote, h⟩ := bind_ok h
  obtain ⟨index, counted, hindex, h⟩ := bind_ok h
  obtain ⟨props, _, hprops, h⟩ := bind_ok h
  obtain ⟨z, _, hz, h⟩ := bind_ok h
  obtain ⟨styles, _, hstyles, h⟩ := bind_ok h
  obtain ⟨markup, _, hmarkup, h⟩ := bind_ok h
  cases h
  cases ofExcept_ok hmarkup
  cases ofExcept_ok hstyles
  cases ofExcept_ok hz
  cases ofExcept_ok hprops
  cases hindex
  cases noteEnd_ok hnote
  refine ⟨start, explicit, between, hwindow, rfl, ?_, rfl⟩
  unfold Surroundings.stopAfter
  cases explicit with
  | some t => rfl
  | none => cases around.flow <;> rfl

theorem container_spec {components : List (Component T)} {stop : Option T}
    (h : container setting around cursor el draft = .ok ((components, stop), draft')) :
    ∃ start explicit between inner between' placed after,
      window setting el (around.ownBase cursor) draft = .ok ((start, explicit), between) ∧
      surroundingsOf setting around start el between = .ok (inner, between') ∧
      contained setting inner start none el.children between' = .ok (placed, after) ∧
      components = placed.components ∧ stop = explicit.or (placed.implicitEnd inner.flow) ∧
      draft' = { after with ends := after.ends ++ stop.toList } := by
  cases el
  rw [container] at h
  obtain ⟨⟨start, explicit⟩, between, hwindow, h⟩ := bind_ok h
  obtain ⟨inner, between', hinner, h⟩ := bind_ok h
  obtain ⟨placed, after, hplaced, h⟩ := bind_ok h
  obtain ⟨_, noted, hnote, h⟩ := bind_ok h
  cases h
  exact ⟨start, explicit, between, inner, between', placed, after, hwindow, hinner, hplaced, rfl,
    rfl, noteEnd_ok hnote⟩

end

end Cuesheet.Attempt
