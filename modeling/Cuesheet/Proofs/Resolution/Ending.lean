import Cuesheet.Proofs.Resolution.Sequencing

/-!
# Scenes that end with what is in them

An attempt notes the end of everything that it places and of nothing else (`Adds`): of cues, layers
and components, which are there in the scene that it gives, and of containers, of which the scene
only has what was in them (`NestedEnd`, `EnclosedEnd`). A scene that says neither when it ends nor
how long it lasts ends with the last of them, and is open if there is none (`compose_endsLast`).
-/

namespace Cuesheet.Attempt

variable {T α β : Type}

/-! ## Steps that write nothing down -/

/-- A step that leaves the draft as it is. -/
def Reads (m : Attempt T α) : Prop :=
  ∀ draft a draft', m draft = .ok (a, draft') → draft' = draft

namespace Reads

theorem pure (a : α) : Reads (pure a : Attempt T α) := by
  rintro draft _ _ ⟨⟩
  rfl

theorem throw (stop : AttemptStop) : Reads (throw stop : Attempt T α) := nofun

theorem bind {m : Attempt T α} {f : α → Attempt T β} (h : Reads m) (hf : ∀ a, Reads (f a)) :
    Reads (m >>= f) := by
  intro draft b draft' hrun
  obtain ⟨a, between, hm, hfa⟩ := bind_ok hrun
  rw [hf a between b draft' hfa, h draft a between hm]

theorem ofExcept (x : Except ResolutionFault α) : Reads (ofExcept x : Attempt T α) :=
  fun _ _ _ h => ofExcept_ok h

end Reads

variable [TimeScalar T] {setting : Setting T}

theorem evaluate_reads (raw : String) : Reads (evaluate setting raw) :=
  fun _ _ _ h => (evaluate_ok h).2

theorem time?_reads (el : Element) (name : String) : Reads (time? setting el name) :=
  fun _ _ _ h => (time?_ok h).1

theorem place?_reads (el : Element) (name : String) (base scale : T) :
    Reads (place? setting el name base scale) := by
  unfold place?
  cases el.get? name with
  | none => exact .pure _
  | some raw =>
      refine (evaluate_reads raw).bind fun value => ?_
      split <;> exact .pure _

theorem durationEnd?_reads (el : Element) (start scale : T) :
    Reads (durationEnd? setting el start scale) := by
  refine (time?_reads el "duration").bind fun duration => ?_
  split <;> exact .pure _

theorem window_reads (el : Element) (base : T) : Reads (window setting el base) := by
  refine (place?_reads el "start" base TimeScalar.one).bind fun start => ?_
  refine (place?_reads el "end" base TimeScalar.one).bind fun stop => ?_
  cases stop with
  | some stop => exact .pure _
  | none =>
      refine (time?_reads el "duration").bind fun duration => ?_
      split <;> exact .pure _

theorem surroundingsOf_reads (around : Surroundings T) (start : T) (el : Element) :
    Reads (surroundingsOf setting around start el) := by
  refine (Reads.ofExcept _).bind fun styles => (Reads.ofExcept _).bind fun markup => ?_
  refine Reads.bind ?_ fun defaultChild => .pure _
  refine (time?_reads el "default-child-duration").bind fun given => ?_
  cases given with
  | some t => exact .pure _
  | none => exact (time?_reads el "defaultChildDuration").bind fun _ => .pure _

theorem pause_reads (el : Element) (place : String) : Reads (pause setting el place) := by
  refine (time?_reads el "seconds").bind fun seconds => ?_
  cases seconds with
  | some seconds => exact .pure _
  | none =>
      dsimp only
      split
      · refine (time?_reads el "mean").bind fun mean => ?_
        refine (time?_reads el "std").bind fun std => ?_
        split
        · refine (time?_reads el "min").bind fun min => ?_
          exact (time?_reads el "max").bind fun max => .pure _
        · exact .throw _
      · exact .throw _

theorem cueContent_reads (place : String) (children : List Element) :
    Reads (cueContent setting place children) := by
  induction children with
  | nil => exact .pure _
  | cons child rest ih =>
      rw [cueContent]
      split
      · dsimp only
        split
        · exact ih
        · refine (time?_reads child "trim-end").bind fun trimEnd => ?_
          exact ih.bind fun content => .pure _
      · split
        · refine (pause_reads child place).bind fun p => ?_
          exact ih.bind fun content => .pure _
        · split
          · exact ih.bind fun content => .pure _
          · exact ih

theorem sceneStart_reads (el : Element) : Reads (sceneStart setting el) := by
  refine (time?_reads el "start").bind fun start => ?_
  cases start with
  | some start => exact .pure _
  | none =>
      dsimp only
      split
      · exact .pure _
      · split
        · exact .throw _
        · exact .pure _

theorem checkEnd_reads (place : String) (start : T) (stop : Option T) :
    Reads (checkEnd place start stop) := by
  unfold checkEnd
  split
  · exact .pure _
  · split
    · exact .throw _
    · exact .pure _

/-! ## What is noted -/

omit [TimeScalar T] in
/-- The ends that are noted on the way from one draft to another are those with a property. -/
def Adds (draft draft' : Draft T) (p : T → Prop) : Prop :=
  ∃ new, draft'.ends = draft.ends ++ new ∧ ∀ t, t ∈ new ↔ p t

namespace Adds

variable {draft draft' draft'' : Draft T} {p q : T → Prop}

omit [TimeScalar T]

theorem nothing (h : draft'.ends = draft.ends) : Adds draft draft' fun _ => False :=
  ⟨[], by rw [h, List.append_nil], fun _ => iff_of_false List.not_mem_nil id⟩

theorem of_end {stop : Option T} (h : draft'.ends = draft.ends ++ stop.toList) :
    Adds draft draft' fun t => stop = some t :=
  ⟨stop.toList, h, fun _ => Option.mem_toList⟩

theorem append (h : Adds draft draft' p) (h' : Adds draft' draft'' q) :
    Adds draft draft'' fun t => p t ∨ q t := by
  obtain ⟨new, hends, hnew⟩ := h
  obtain ⟨new', hends', hnew'⟩ := h'
  refine ⟨new ++ new', by rw [hends', hends, List.append_assoc], fun t => ?_⟩
  rw [List.mem_append, hnew, hnew']

theorem congr (h : Adds draft draft' p) (hpq : ∀ t, p t ↔ q t) : Adds draft draft' q := by
  obtain ⟨new, hends, hnew⟩ := h
  exact ⟨new, hends, fun t => (hnew t).trans (hpq t)⟩

end Adds

/-! ## Containers -/

/-- On the way over some children, placed from a cursor on, a container ends: one of the children,
or one inside them. -/
inductive NestedEnd (setting : Setting T) :
    Surroundings T → T → List Element → Draft T → T → Prop
  | own {around : Surroundings T} {cursor : T} {el : Element} {rest : List Element}
      {draft draft' : Draft T} {found : List (Component T)} {t : T}
      (tag : Element.isContainerTag el.tag = true)
      (ends : container setting around cursor el draft = .ok ((found, some t), draft')) :
      NestedEnd setting around cursor (el :: rest) draft t
  | inside {around inner : Surroundings T} {cursor start : T} {explicit : Option T} {el : Element}
      {rest : List Element} {draft between between' : Draft T} {t : T}
      (tag : Element.isContainerTag el.tag = true)
      (window : window setting el (around.ownBase cursor) draft = .ok ((start, explicit), between))
      (within : surroundingsOf setting around start el between = .ok (inner, between'))
      (ends : NestedEnd setting inner start el.children between' t) :
      NestedEnd setting around cursor (el :: rest) draft t
  | later {around : Surroundings T} {cursor : T} {stop : Option T} {el : Element}
      {rest : List Element} {draft draft' : Draft T} {found : List (Component T)} {t : T}
      (placed : IsPlaced el)
      (first : member setting around cursor el draft = .ok ((found, stop), draft'))
      (ends : NestedEnd setting around (advance around.flow cursor stop) rest draft' t) :
      NestedEnd setting around cursor (el :: rest) draft t
  | skipped {around : Surroundings T} {cursor : T} {el : Element} {rest : List Element}
      {draft : Draft T} {t : T} (skipped : ¬ IsPlaced el)
      (ends : NestedEnd setting around cursor rest draft t) :
      NestedEnd setting around cursor (el :: rest) draft t

section

variable {around : Surroundings T} {cursor : T} {el : Element} {rest : List Element}
  {draft draft' : Draft T} {found : List (Component T)} {stop : Option T} {t : T}

theorem not_nestedEnd_nil : ¬ NestedEnd setting around cursor [] draft t := nofun

theorem nestedEnd_skipped (h : ¬ IsPlaced el) :
    NestedEnd setting around cursor (el :: rest) draft t ↔
      NestedEnd setting around cursor rest draft t := by
  constructor
  · rintro (⟨tag, -⟩ | ⟨tag, -, -, -⟩ | ⟨placed, -, -⟩ | ⟨-, ends⟩)
    · exact absurd (.inl tag) h
    · exact absurd (.inl tag) h
    · exact absurd placed h
    · exact ends
  · exact .skipped h

/-- A container ends among some children if it does in the first one, or among the others. -/
theorem nestedEnd_cons (h : IsPlaced el)
    (hfirst : member setting around cursor el draft = .ok ((found, stop), draft')) :
    NestedEnd setting around cursor (el :: rest) draft t ↔
      NestedEnd setting around cursor [el] draft t ∨
        NestedEnd setting around (advance around.flow cursor stop) rest draft' t := by
  constructor
  · rintro (⟨tag, ends⟩ | ⟨tag, hwindow, hinner, ends⟩ | ⟨-, first, ends⟩ | ⟨skipped, -⟩)
    · exact .inl (.own tag ends)
    · exact .inl (.inside tag hwindow hinner ends)
    · cases hfirst.symm.trans first
      exact .inr ends
    · exact absurd h skipped
  · rintro (ends | ends)
    · cases ends with
      | own tag ends => exact .own tag ends
      | inside tag hwindow hinner ends => exact .inside tag hwindow hinner ends
      | later _ _ ends => exact absurd ends not_nestedEnd_nil
      | skipped skipped _ => exact absurd h skipped
    · exact .later h hfirst ends

/-- In a component no container ends. -/
theorem not_nestedEnd_component (htag : Element.isContainerTag el.tag = false) :
    ¬ NestedEnd setting around cursor [el] draft t := by
  rintro (⟨tag, -⟩ | ⟨tag, -, -, -⟩ | ⟨-, -, ends⟩ | ⟨-, ends⟩)
  · exact Bool.false_ne_true (htag.symm.trans tag)
  · exact Bool.false_ne_true (htag.symm.trans tag)
  · exact not_nestedEnd_nil ends
  · exact not_nestedEnd_nil ends

/-- In a container, it ends itself or one does among its children. -/
theorem nestedEnd_container (htag : Element.isContainerTag el.tag = true)
    {start : T} {explicit : Option T} {inner : Surroundings T} {between between' : Draft T}
    (hwindow : window setting el (around.ownBase cursor) draft = .ok ((start, explicit), between))
    (hinner : surroundingsOf setting around start el between = .ok (inner, between'))
    (hrun : container setting around cursor el draft = .ok ((found, stop), draft')) :
    NestedEnd setting around cursor [el] draft t ↔
      stop = some t ∨ NestedEnd setting inner start el.children between' t := by
  constructor
  · rintro (⟨-, ends⟩ | ⟨-, hwindow', hinner', ends⟩ | ⟨-, -, ends⟩ | ⟨-, ends⟩)
    · cases hrun.symm.trans ends
      exact .inl rfl
    · cases hwindow.symm.trans hwindow'
      cases hinner.symm.trans hinner'
      exact .inr ends
    · exact absurd ends not_nestedEnd_nil
    · exact absurd ends not_nestedEnd_nil
  · rintro (rfl | ends)
    · exact .own htag hrun
    · exact .inside htag hwindow hinner ends

end

/-! ## What is noted inside a container -/

omit [TimeScalar T] in
/-- The ends of some components. -/
def stops (components : List (Component T)) : List T := components.filterMap Component.stop

omit [TimeScalar T] in
theorem mem_stops {components : List (Component T)} {t : T} :
    t ∈ stops components ↔ ∃ c ∈ components, c.stop = some t := List.mem_filterMap

omit [TimeScalar T] in
theorem mem_stops_append {front back : List (Component T)} {t : T} :
    t ∈ stops (front ++ back) ↔ t ∈ stops front ∨ t ∈ stops back := by
  rw [stops, List.filterMap_append, List.mem_append]
  rfl

omit [TimeScalar T] in
theorem mem_stops_singleton {c : Component T} {t : T} : t ∈ stops [c] ↔ c.stop = some t := by
  simp [mem_stops]

section

variable {around : Surroundings T} {cursor : T} {draft draft' : Draft T}

theorem component_adds {el : Element} {c : Component T}
    (h : component setting around cursor el draft = .ok (c, draft')) :
    Adds draft draft' fun t => c.stop = some t := by
  obtain ⟨start, explicit, between, hwindow, -, -, hends⟩ := component_spec h
  obtain rfl := window_reads _ _ _ _ _ hwindow
  exact .of_end hends

mutual

theorem container_adds : ∀ (el : Element) {around : Surroundings T} {cursor : T}
    {draft draft' : Draft T} {found : List (Component T)} {stop : Option T},
    Element.isContainerTag el.tag = true →
    container setting around cursor el draft = .ok ((found, stop), draft') →
      Adds draft draft' fun t => t ∈ stops found ∨ NestedEnd setting around cursor [el] draft t
  | ⟨tag, attributes, children, text⟩, around, cursor, draft, draft', found, stop, htag, h => by
      obtain ⟨start, explicit, between, inner, between', placed, after, hwindow, hinner, hplaced,
        rfl, hstop, rfl⟩ := container_spec h
      obtain rfl := window_reads _ _ _ _ _ hwindow
      obtain rfl := surroundingsOf_reads _ _ _ _ _ _ hinner
      refine ((contained_adds children hplaced).append (.of_end rfl)).congr fun t => ?_
      rw [nestedEnd_container htag hwindow hinner h, or_assoc, or_comm (a := stop = some t)]

theorem contained_adds : ∀ (children : List Element) {around : Surroundings T} {cursor : T}
    {latest : Option T} {draft draft' : Draft T} {placed : Placed T},
    contained setting around cursor latest children draft = .ok (placed, draft') →
      Adds draft draft' fun t =>
        t ∈ stops placed.components ∨ NestedEnd setting around cursor children draft t
  | [], around, cursor, latest, draft, draft', placed, h => by
      rw [contained] at h
      cases h
      refine (Adds.nothing rfl).congr fun t => iff_of_false id ?_
      rintro (hmem | hends)
      · cases hmem
      · exact not_nestedEnd_nil hends
  | child :: rest, around, cursor, latest, draft, draft', placed, h => by
      by_cases hplaced : IsPlaced child
      · rw [contained_placed hplaced] at h
        obtain ⟨⟨found, stop⟩, between, hfound, h⟩ := bind_ok h
        obtain ⟨placed, after, hothers, h⟩ := bind_ok h
        cases h
        have hrest := contained_adds rest hothers
        have hfirst : Adds draft between fun t =>
            t ∈ stops found ∨ NestedEnd setting around cursor [child] draft t := by
          unfold member at hfound
          cases htag : Element.isContainerTag child.tag with
          | true =>
              rw [htag, if_pos rfl] at hfound
              exact container_adds child htag hfound
          | false =>
              rw [htag, if_neg Bool.false_ne_true] at hfound
              obtain ⟨c, between, hc, hfound⟩ := bind_ok hfound
              cases hfound
              refine (component_adds hc).congr fun t => ?_
              rw [or_iff_left (not_nestedEnd_component htag)]
              exact mem_stops_singleton.symm
        refine (hfirst.append hrest).congr fun t => ?_
        have hcons : NestedEnd setting around cursor (child :: rest) draft t ↔ _ :=
          nestedEnd_cons hplaced hfound
        rw [hcons, or_or_or_comm]
        exact or_congr_left mem_stops_append.symm
      · rw [contained_skipped hplaced] at h
        refine (contained_adds rest h).congr fun t => ?_
        rw [nestedEnd_skipped hplaced]

end

end

/-! ## Cues and layers -/

theorem cueTimes_adds {el : Element} {id : String} {sceneStart scale : T} {start stop : Option T}
    {draft draft' : Draft T}
    (h : cueTimes setting el id sceneStart scale draft = .ok ((start, stop), draft')) :
    draft'.ends = draft.ends ++ stop.toList := by
  obtain ⟨begun, between, hstart, h⟩ := bind_ok h
  obtain rfl := place?_reads _ _ _ _ _ _ _ hstart
  cases begun with
  | none =>
      dsimp only at h
      split at h
      · cases h
      · cases h
        exact (List.append_nil _).symm
  | some begun =>
      obtain ⟨_, learnt, hlearn, h⟩ := bind_ok h
      have hends : learnt.ends = between.ends := by
        cases hlearn
        rfl
      obtain ⟨placed, _, hplaced, h⟩ := bind_ok h
      rw [place?_reads _ _ _ _ _ _ _ hplaced] at h
      have hrest : ∀ o : Option T, (do noteEnd o; return (some begun, o) : Attempt T _) learnt =
          .ok ((start, stop), draft') → draft'.ends = between.ends ++ stop.toList := by
        intro o h
        obtain ⟨_, noted, hnote, h⟩ := bind_ok h
        cases h
        rw [noteEnd_ok hnote, hends]
      cases placed with
      | some t => exact hrest (some t) h
      | none =>
          obtain ⟨o, _, hduration, h⟩ := bind_ok h
          rw [durationEnd?_reads _ _ _ _ _ _ hduration] at h
          exact hrest o h

theorem cue_adds {el : Element} {sceneStart scale : T} {place : String} {c : Cue T}
    {draft draft' : Draft T}
    (h : cue setting el sceneStart scale place draft = .ok (c, draft')) :
    Adds draft draft' fun t => c.stop = some t := by
  unfold cue at h
  cases hid : el.get? "id" with
  | none => rw [hid] at h; cases h
  | some id =>
      rw [hid] at h
      obtain ⟨_, _, hget, h⟩ := bind_ok h
      cases hget
      dsimp only at h
      split at h
      · cases h
      · obtain ⟨_, taken, htaken, h⟩ := bind_ok h
        have hends : taken.ends = draft.ends := by
          cases htaken
          rfl
        obtain ⟨⟨start, stop⟩, between, htimes, h⟩ := bind_ok h
        obtain ⟨content, _, hcontent, h⟩ := bind_ok h
        cases h
        obtain rfl := cueContent_reads _ _ _ _ _ hcontent
        exact .of_end (hends ▸ cueTimes_adds htimes)

/-- Where the components of a layer are placed. -/
theorem layer_spec {el : Element} {sceneStart : T} {place : String} {l : Layer T}
    {draft draft' : Draft T}
    (h : layer setting el sceneStart place draft = .ok (l, draft')) :
    ∃ id start explicit between placed after, el.get? "id" = some id ∧
      window setting el sceneStart draft = .ok ((start, explicit), between) ∧
      contained setting (top start (place ++ ", layer '" ++ id ++ "'")) start none el.children
        between = .ok (placed, after) ∧
      l.components = placed.components ∧ draft'.ends = after.ends ++ l.stop.toList := by
  unfold layer at h
  cases hid : el.get? "id" with
  | none => rw [hid] at h; cases h
  | some id =>
      rw [hid] at h
      obtain ⟨⟨start, explicit⟩, between, hwindow, h⟩ := bind_ok h
      obtain ⟨placed, after, hplaced, h⟩ := bind_ok h
      obtain ⟨_, noted, hnote, h⟩ := bind_ok h
      obtain ⟨z, _, hz, h⟩ := bind_ok h
      obtain ⟨styles, _, hstyles, h⟩ := bind_ok h
      obtain ⟨markup, _, hmarkup, h⟩ := bind_ok h
      cases h
      cases ofExcept_ok hmarkup
      cases ofExcept_ok hstyles
      cases ofExcept_ok hz
      cases noteEnd_ok hnote
      exact ⟨id, start, explicit, between, placed, after, rfl, hwindow, hplaced, rfl, rfl⟩

/-! ## Scenes -/

/-- Among the children of a scene that starts at a time a container ends: one of them, or one inside
them or in a layer. -/
inductive EnclosedEnd (setting : Setting T) (start scale : T) (place : String) :
    List Element → Draft T → T → Prop
  | container {el : Element} {rest : List Element} {draft : Draft T} {t : T}
      (ends : NestedEnd setting (top start place) start [el] draft t) :
      EnclosedEnd setting start scale place (el :: rest) draft t
  | layer {el : Element} {rest : List Element} {id : String} {own : T} {explicit : Option T}
      {draft between : Draft T} {t : T} (tag : (el.tag == "layer") = true)
      (named : el.get? "id" = some id)
      (window : window setting el start draft = .ok ((own, explicit), between))
      (ends : NestedEnd setting (top own (place ++ ", layer '" ++ id ++ "'")) own el.children
        between t) :
      EnclosedEnd setting start scale place (el :: rest) draft t
  | later {el : Element} {rest : List Element} {content : SceneContent T}
      {draft between : Draft T} {t : T}
      (first : sceneContent setting start scale place [el] draft = .ok (content, between))
      (ends : EnclosedEnd setting start scale place rest between t) :
      EnclosedEnd setting start scale place (el :: rest) draft t

omit [TimeScalar T] in
/-- A cue, a layer or a component of a scene ends at a time. -/
def SceneContent.EndsAt (content : SceneContent T) (t : T) : Prop :=
  (∃ c ∈ content.items.filterMap itemCue?, c.stop = some t) ∨
    (∃ l ∈ content.layers, l.stop = some t) ∨
      t ∈ stops (content.components ++ content.layers.flatMap Layer.components)

omit [TimeScalar T] in
theorem SceneContent.endsAt_append {front back : SceneContent T} {t : T} :
    (front.append back).EndsAt t ↔ front.EndsAt t ∨ back.EndsAt t := by
  simp only [EndsAt, append, List.filterMap_append, List.flatMap_append, List.mem_append,
    mem_stops_append, or_and_right, exists_or]
  simp only [or_assoc, or_left_comm]

section

variable {start scale : T} {place : String} {el : Element} {rest : List Element}
  {draft draft' : Draft T} {content : SceneContent T} {t : T}

theorem not_enclosedEnd_nil : ¬ EnclosedEnd setting start scale place [] draft t := nofun

theorem enclosedEnd_cons
    (hfirst : sceneContent setting start scale place [el] draft = .ok (content, draft')) :
    EnclosedEnd setting start scale place (el :: rest) draft t ↔
      EnclosedEnd setting start scale place [el] draft t ∨
        EnclosedEnd setting start scale place rest draft' t := by
  constructor
  · rintro (⟨ends⟩ | ⟨tag, named, window, ends⟩ | ⟨first, ends⟩)
    · exact .inl (.container ends)
    · exact .inl (.layer tag named window ends)
    · cases hfirst.symm.trans first
      exact .inr ends
  · rintro (ends | ends)
    · cases ends with
      | container ends => exact .container ends
      | layer tag named window ends => exact .layer tag named window ends
      | later _ ends => exact absurd ends not_enclosedEnd_nil
    · exact .later hfirst ends

theorem enclosedEnd_of_not_layer (h : ¬ (el.tag == "layer") = true) :
    EnclosedEnd setting start scale place [el] draft t ↔
      NestedEnd setting (top start place) start [el] draft t := by
  refine ⟨?_, .container⟩
  rintro (⟨ends⟩ | ⟨tag, -, -, -⟩ | ⟨-, ends⟩)
  · exact ends
  · exact absurd tag h
  · exact absurd ends not_enclosedEnd_nil

/-- Containers are found in scenes and layers and in containers only. -/
theorem not_enclosedEnd (h : ¬ (el.tag == "layer") = true)
    (htag : ¬ Element.isContainerTag el.tag = true) :
    ¬ EnclosedEnd setting start scale place [el] draft t := by
  rw [enclosedEnd_of_not_layer h]
  exact not_nestedEnd_component (Bool.eq_false_iff.mpr htag)

theorem layer_adds (htag : (el.tag == "layer") = true) {l : Layer T}
    (h : layer setting el start place draft = .ok (l, draft')) :
    Adds draft draft' fun t => (t ∈ stops l.components ∨ l.stop = some t) ∨
      EnclosedEnd setting start scale place [el] draft t := by
  obtain ⟨id, own, explicit, between, placed, after, hid, hwindow, hplaced, hcomponents, hends⟩ :=
    layer_spec h
  obtain rfl := window_reads _ _ _ _ _ hwindow
  refine ((contained_adds el.children hplaced).append (.of_end hends)).congr fun t => ?_
  have hnested : NestedEnd setting (top own (place ++ ", layer '" ++ id ++ "'")) own el.children
      between t ↔ EnclosedEnd setting start scale place [el] between t := by
    refine ⟨.layer htag hid hwindow, ?_⟩
    rintro (⟨ends⟩ | ⟨-, hid', hwindow', ends⟩ | ⟨-, ends⟩)
    · have htag' : el.tag = "layer" := eq_of_beq htag
      refine absurd ends (not_nestedEnd_component ?_)
      rw [htag']
      rfl
    · cases hid.symm.trans hid'
      cases hwindow.symm.trans hwindow'
      exact ends
    · exact absurd ends not_enclosedEnd_nil
  rw [hcomponents, hnested, or_right_comm]

/-- What is noted for one child of a scene. -/
theorem child_adds
    (h : sceneContent setting start scale place [el] draft = .ok (content, draft')) :
    Adds draft draft' fun t =>
      content.EndsAt t ∨ EnclosedEnd setting start scale place [el] draft t := by
  rw [sceneContent] at h
  split at h
  · rename_i htag
    obtain ⟨c, _, hc, h⟩ := bind_ok h
    rw [sceneContent] at h
    cases h
    refine (cue_adds hc).congr fun t => ?_
    have htag : el.tag = "cue" := eq_of_beq htag
    rw [or_iff_left (not_enclosedEnd (by rw [htag]; decide) (by rw [htag]; decide))]
    simp [SceneContent.EndsAt, itemCue?, stops]
  · split at h
    · rename_i htag
      obtain ⟨p, _, hp, h⟩ := bind_ok h
      rw [sceneContent] at h
      cases h
      obtain rfl := pause_reads _ _ _ _ _ hp
      refine (Adds.nothing rfl).congr fun t => ?_
      have htag : el.tag = "pause" := eq_of_beq htag
      rw [or_iff_left (not_enclosedEnd (by rw [htag]; decide) (by rw [htag]; decide))]
      simp [SceneContent.EndsAt, itemCue?, stops]
    · split at h
      · rename_i htag
        obtain ⟨l, _, hl, h⟩ := bind_ok h
        rw [sceneContent] at h
        cases h
        refine (layer_adds htag hl).congr fun t => or_congr_left ?_
        simp [SceneContent.EndsAt, or_comm]
      · rename_i hlayer
        split at h
        · rename_i htag
          obtain ⟨⟨found, stop⟩, _, hfound, h⟩ := bind_ok h
          rw [sceneContent] at h
          cases h
          refine (container_adds el htag hfound).congr fun t => ?_
          rw [enclosedEnd_of_not_layer hlayer]
          simp [SceneContent.EndsAt]
        · rename_i htag
          split at h
          · rw [sceneContent] at h
            cases h
            refine (Adds.nothing rfl).congr fun t => ?_
            rw [or_iff_left (not_enclosedEnd hlayer htag)]
            simp [SceneContent.EndsAt, stops]
          · obtain ⟨c, _, hc, h⟩ := bind_ok h
            rw [sceneContent] at h
            cases h
            refine (component_adds hc).congr fun t => ?_
            rw [or_iff_left (not_enclosedEnd hlayer htag)]
            simp [SceneContent.EndsAt, mem_stops]

theorem sceneContent_adds : ∀ {children : List Element} {draft draft' : Draft T}
    {content : SceneContent T},
    sceneContent setting start scale place children draft = .ok (content, draft') →
      Adds draft draft' fun t =>
        content.EndsAt t ∨ EnclosedEnd setting start scale place children draft t
  | [], draft, draft', content, h => by
      rw [sceneContent] at h
      cases h
      refine (Adds.nothing rfl).congr fun t => iff_of_false id ?_
      rw [or_iff_left not_enclosedEnd_nil]
      simp [SceneContent.EndsAt, stops]
  | el :: rest, draft, draft', content, h => by
      rw [← List.singleton_append, sceneContent_append] at h
      obtain ⟨front, between, hfront, h⟩ := bind_ok h
      obtain ⟨back, _, hback, h⟩ := bind_ok h
      cases h
      refine ((child_adds hfront).append (sceneContent_adds hback)).congr fun t => ?_
      have hcons : EnclosedEnd setting start scale place (el :: rest) draft t ↔ _ :=
        enclosedEnd_cons hfront
      rw [hcons, or_or_or_comm, SceneContent.endsAt_append]

end

/-! ## Scenes that do not say when they end -/

/-- A cue, a layer, a component or a container of a scene ends at a time. -/
inductive EndsIn (setting : Setting T) (el : Element) (scene : Scene T) (t : T) : Prop
  | cue {c : Cue T} (mem : c ∈ scene.cues) (ends : c.stop = some t)
  | layer {l : Layer T} (mem : l ∈ scene.layers) (ends : l.stop = some t)
  | component {c : Component T} (mem : c ∈ scene.allComponents) (ends : c.stop = some t)
  | container (ends : EnclosedEnd setting scene.start (TimeScalar.mul setting.scale el.timeScale)
      ("Scene '" ++ scene.id ++ "'") el.children { sceneStart := [(scene.id, scene.start)] } t)

theorem endsIn_iff {el : Element} {scene : Scene T} {t : T} :
    ((∃ c ∈ scene.items.filterMap itemCue?, c.stop = some t) ∨
      (∃ l ∈ scene.layers, l.stop = some t) ∨ t ∈ stops scene.allComponents) ∨
      EnclosedEnd setting scene.start (TimeScalar.mul setting.scale el.timeScale)
        ("Scene '" ++ scene.id ++ "'") el.children { sceneStart := [(scene.id, scene.start)] } t ↔
    EndsIn setting el scene t := by
  rw [mem_stops]
  constructor
  · rintro ((⟨c, hc, h⟩ | ⟨l, hl, h⟩ | ⟨c, hc, h⟩) | h)
    · exact .cue hc h
    · exact .layer hl h
    · exact .component hc h
    · exact .container h
  · rintro (⟨hc, h⟩ | ⟨hl, h⟩ | ⟨hc, h⟩ | h)
    · exact .inl (.inl ⟨_, hc, h⟩)
    · exact .inl (.inr (.inl ⟨_, hl, h⟩))
    · exact .inl (.inr (.inr ⟨_, hc, h⟩))
    · exact .inr h

/-- The ends that an attempt at a scene notes. -/
def noted (setting : Setting T) (id : String) (el : Element) : List T :=
  match scene setting id el {} with
  | .ok (_, draft) => draft.ends
  | .error _ => []

/-- The scene that is closed is of the content, and ends as it says or with the last noted end. -/
theorem closeScene_ok {id : String} {el : Element} {place : String} {start : T}
    {explicit : Option T} {content : SceneContent T} {s : Scene T} {draft draft' : Draft T}
    (h : closeScene id el place start explicit content draft = .ok (s, draft')) :
    (s.id = id ∧ s.start = start ∧ s.stop = explicit.or (TimeScalar.latest? draft.ends)) ∧
      (s.items = content.items ∧ s.layers = content.layers ∧
        s.components = content.components) ∧ draft' = draft := by
  obtain ⟨_, _, hget, h⟩ := bind_ok h
  cases hget
  obtain ⟨_, _, hcheck, h⟩ := bind_ok h
  rw [checkEnd_reads _ _ _ _ _ _ hcheck] at h
  obtain ⟨styles, _, hstyles, h⟩ := bind_ok h
  obtain ⟨markup, _, hmarkup, h⟩ := bind_ok h
  cases h
  cases ofExcept_ok hmarkup
  cases ofExcept_ok hstyles
  exact ⟨⟨rfl, rfl, rfl⟩, ⟨rfl, rfl, rfl⟩, rfl⟩

/-- A scene that does not say when it ends is there with the last of the ends that are noted for
what is in it. -/
theorem run_implicit {id : String} {el : Element} {s : Scene T} (h : run setting id el = .ok s)
    (hend : el.get? "end" = none) (hduration : el.get? "duration" = none) :
    (∀ t, t ∈ noted setting id el ↔ EndsIn setting el s t) ∧
      s.stop = TimeScalar.latest? (noted setting id el) := by
  cases hrun : scene setting id el {} with
  | error stop =>
      unfold run at h
      rw [hrun] at h
      cases h
  | ok r =>
      obtain ⟨s', draft⟩ := r
      have hnoted : noted setting id el = draft.ends := by
        unfold noted
        rw [hrun]
      unfold run at h
      rw [hrun] at h
      cases h
      obtain ⟨start, _, hstart, hrun⟩ := bind_ok hrun
      rw [sceneStart_reads _ _ _ _ hstart] at hrun
      obtain ⟨_, begun, hbegun, hrun⟩ := bind_ok hrun
      obtain ⟨explicit, _, hexplicit, hrun⟩ := bind_ok hrun
      have hopen : sceneEnd setting el start (TimeScalar.mul setting.scale el.timeScale) begun =
          .ok (none, begun) := by
        unfold sceneEnd durationEnd? time?
        rw [hend, hduration]
        rfl
      cases hopen.symm.trans hexplicit
      obtain ⟨_, _, hopened, hrun⟩ := bind_ok hrun
      cases hopened
      cases hbegun
      obtain ⟨content, between, hcontent, hclose⟩ := bind_ok hrun
      obtain ⟨⟨rfl, rfl, hstop⟩, ⟨hitems, hlayers, hcomponents⟩, rfl⟩ := closeScene_ok hclose
      obtain ⟨new, hends, hnew⟩ := sceneContent_adds hcontent
      have hends : draft.ends = new := hends
      rw [hnoted]
      refine ⟨fun t => ?_, hstop⟩
      rw [hends, hnew, ← endsIn_iff]
      unfold SceneContent.EndsAt
      rw [← hitems, ← hlayers, ← hcomponents]
      rfl

end Cuesheet.Attempt

namespace Cuesheet.Resolution

/-- The last of the times with a property, or nothing if there is none. -/
def IsLatest (p : Float → Prop) : Option Float → Prop
  | none => ∀ t, ¬ p t
  | some m => p m ∧ ∀ t, p t → t ≤ m

theorem isLatest_latest? {times : List Float} {p : Float → Prop} (h : ∀ t, t ∈ times ↔ p t)
    (hnum : ∀ t, p t → t.isNaN = false) : IsLatest p (TimeScalar.latest? times) := by
  have htimes : ∀ t ∈ times, t.isNaN = false := fun t ht => hnum t ((h t).mp ht)
  cases hlatest : TimeScalar.latest? times with
  | none =>
      intro t ht
      cases times with
      | nil => cases (h t).mpr ht
      | cons first rest => cases hlatest
  | some m =>
      obtain ⟨hmem, hlast⟩ := TimeScalar.latest?_spec TimeScalar.ordered_isNaN htimes hlatest
      refine ⟨(h m).mp hmem, fun t ht => ?_⟩
      exact of_decide_eq_true
        (Number.le_of_lt_eq_false (hnum t ht) (htimes m hmem) (hlast t ((h t).mpr ht)))

/-- A scene that says neither when it ends nor how long it lasts ends with the last of what is in
it, and is open if nothing in it ends. -/
theorem compose_endsLast {root : Element} {c : Composition Float} (h : compose root = .ok c)
    (index : Nat) (scene : Scene Float) (hscene : c.scenes[index]? = some scene) :
    ∃ el setting, (root.childElements ["scene"])[index]? = some el ∧
      setting = Setting.among c.fps root.timeScale c.scenes index ∧
      Attempt.run setting scene.id el = .ok scene ∧
      (el.get? "end" = none → el.get? "duration" = none →
        (∀ t, Attempt.EndsIn setting el scene t → t.isNaN = false) →
          IsLatest (Attempt.EndsIn setting el scene) scene.stop) := by
  obtain ⟨-, hruns⟩ := compose_run h
  obtain ⟨el, hel, -, hrun⟩ := hruns index scene hscene
  refine ⟨el, _, hel, rfl, hrun, fun hend hduration hnum => ?_⟩
  obtain ⟨hnoted, hstop⟩ := Attempt.run_implicit hrun hend hduration
  rw [hstop]
  exact isLatest_latest? hnoted hnum

/-- A scene with a cue, a layer in which a stack ends after what is in it, and a stack that ends
before what is in it; and a scene of which nothing ends. -/
def unended : Element where
  tag := "vml"
  attributes := [("id", "film")]
  children := [
    { tag := "scene"
      attributes := [("id", "intro")]
      children := [
        { tag := "cue", attributes := [("id", "hello"), ("start", "1"), ("duration", "2")] },
        { tag := "layer"
          attributes := [("id", "back")]
          children := [{
            tag := "stack"
            attributes := [("end", "9")]
            children := [{ tag := "box", attributes := [("duration", "4")] }] }] },
        { tag := "stack"
          attributes := [("end", "6")]
          children := [{ tag := "box", attributes := [("start", "3"), ("duration", "5")] }] }] },
    { tag := "scene"
      attributes := [("id", "outro")]
      children := [{ tag := "cue", attributes := [("id", "goodbye")] }] }]

/-- The ends that are noted for a scene of a composition. -/
def endsNotedAt (root : Element) (c : Composition Float) (index : Nat) (el : Element) : List Float :=
  (c.scenes[index]?.map fun scene =>
    Attempt.noted (Setting.among c.fps root.timeScale c.scenes index) scene.id el).getD []

theorem compose_endsLast_unended : ∃ (c : Composition Float) (intro outro : Scene Float),
    compose unended = .ok c ∧ c.scenes[0]? = some intro ∧ c.scenes[1]? = some outro ∧
      (∃ el setting, (unended.childElements ["scene"])[0]? = some el ∧
        Attempt.run setting intro.id el = .ok intro ∧
          IsLatest (Attempt.EndsIn setting el intro) (some 9)) ∧
      ∃ el setting, (unended.childElements ["scene"])[1]? = some el ∧
        Attempt.run setting outro.id el = .ok outro ∧
          IsLatest (Attempt.EndsIn setting el outro) none := by
  have hends : (compose unended).toOption.any (fun c : Composition Float =>
      (c.scenes.map Scene.stop = [some 9, none]) &&
        (unended.childElements ["scene"]).zipIdx.all fun (el, index) =>
          (endsNotedAt unended c index el).all fun t => !t.isNaN) = true := by
    decide +kernel
  have hopen : ∀ el ∈ unended.childElements ["scene"],
      el.get? "end" = none ∧ el.get? "duration" = none := by
    decide
  obtain ⟨c, hc, hends⟩ := exists_ok_of_any hends
  obtain ⟨hstops, hnum⟩ := Bool.and_eq_true_iff.mp hends
  have hlast : ∀ (index : Nat) scene, c.scenes[index]? = some scene →
      ∃ el setting, (unended.childElements ["scene"])[index]? = some el ∧
        Attempt.run setting scene.id el = .ok scene ∧
          IsLatest (Attempt.EndsIn setting el scene) scene.stop := by
    intro index scene hscene
    obtain ⟨el, setting, hel, rfl, hrun, hlast⟩ := compose_endsLast hc index scene hscene
    obtain ⟨hend, hduration⟩ := hopen el (List.mem_of_getElem? hel)
    refine ⟨el, _, hel, hrun, hlast hend hduration fun t ht => ?_⟩
    have hmem := ((Attempt.run_implicit hrun hend hduration).1 t).mpr ht
    have hnum : (endsNotedAt unended c index el).all (fun t => !t.isNaN) = true :=
      List.all_eq_true.mp hnum (el, index) (List.mem_zipIdx_iff_getElem?.mpr hel)
    unfold endsNotedAt at hnum
    rw [hscene] at hnum
    exact (Bool.not_eq_true' _).mp (List.all_eq_true.mp hnum t hmem)
  have hstops := of_decide_eq_true hstops
  have htwo : c.scenes.length = 2 := by
    rw [← List.length_map Scene.stop, hstops]
    rfl
  obtain ⟨intro, outro, hscenes⟩ := List.length_eq_two.mp htwo
  rw [hscenes] at hstops
  obtain ⟨hintro, hstops⟩ := List.cons.inj hstops
  obtain ⟨houtro, -⟩ := List.cons.inj hstops
  refine ⟨c, intro, outro, hc, by rw [hscenes]; rfl, by rw [hscenes]; rfl, ?_, ?_⟩
  · rw [← hintro]
    exact hlast 0 intro (by rw [hscenes]; rfl)
  · rw [← houtro]
    exact hlast 1 outro (by rw [hscenes]; rfl)

end Cuesheet.Resolution
