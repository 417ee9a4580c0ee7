import Cuesheet.Resolution.Attempt

/-!
# What an attempt writes down

`Spec m draft post` says of a step from a draft: if it succeeds, `post` holds of its result and
of the draft afterwards, and if it fails, the fault lies in the scene. Everything inside a scene
but its cues is `Timed`: it notes ends and counts components and leaves the rest of the draft
alone, the starts of cues apart.

`scene_spec` is what one reads off a resolved scene: its id, and that its cues are those of its
markup, under distinct ids which no other scene had taken.
-/

namespace Cuesheet

/-- Whether a fault lies in a single scene, and not in how the scenes depend on each other. -/
def ResolutionFault.OfScene : ResolutionFault → Prop
  | .unresolved _ => False
  | .notConverging => False
  | _ => True

/-- The draft afterwards knows all it knew: times and cue ids are the same, ends and components
are only added. -/
structure Draft.Le {T : Type} (draft draft' : Draft T) : Prop where
  sceneStart : draft'.sceneStart = draft.sceneStart
  sceneEnd : draft'.sceneEnd = draft.sceneEnd
  cueIds : draft'.cueIds = draft.cueIds
  ends : draft.ends <+: draft'.ends
  components : draft.components ≤ draft'.components

theorem Draft.Le.refl {T : Type} (draft : Draft T) : draft.Le draft :=
  ⟨rfl, rfl, rfl, List.prefix_rfl, Nat.le_refl _⟩

theorem Draft.Le.trans {T : Type} {a b c : Draft T} (hab : a.Le b) (hbc : b.Le c) : a.Le c where
  sceneStart := hbc.sceneStart.trans hab.sceneStart
  sceneEnd := hbc.sceneEnd.trans hab.sceneEnd
  cueIds := hbc.cueIds.trans hab.cueIds
  ends := hab.ends.trans hbc.ends
  components := Nat.le_trans hab.components hbc.components

namespace Attempt

variable {T α β : Type}

/-! ## Specifications of steps -/

/-- What a step does from a draft. A step that waits, or whose arithmetic breaks down, may do
anything. -/
def Spec (m : Attempt T α) (draft : Draft T) (post : α → Draft T → Prop) : Prop :=
  match m draft with
  | .ok (a, draft') => post a draft'
  | .error (.wrong fault) => fault.OfScene
  | .error _ => True

theorem Spec.bind {m : Attempt T α} {f : α → Attempt T β} {draft : Draft T}
    {post : β → Draft T → Prop} (h : Spec m draft fun a draft' => Spec (f a) draft' post) :
    Spec (m >>= f) draft post := by
  have hb : (m >>= f) draft = m draft >>= fun r => f r.1 r.2 := rfl
  unfold Spec at h ⊢
  rw [hb]
  cases hm : m draft with
  | error stop => rw [hm] at h; cases stop <;> exact h
  | ok r => rw [hm] at h; exact h

theorem Spec.mono {m : Attempt T α} {draft : Draft T} {post post' : α → Draft T → Prop}
    (h : Spec m draft post) (hp : ∀ a draft', post a draft' → post' a draft') :
    Spec m draft post' := by
  unfold Spec at h ⊢
  split <;> simp_all

theorem Spec.ok {m : Attempt T α} {draft draft' : Draft T} {post : α → Draft T → Prop} {a : α}
    (h : Spec m draft post) (hm : m draft = .ok (a, draft')) : post a draft' := by
  unfold Spec at h; rw [hm] at h; exact h

theorem Spec.wrong {m : Attempt T α} {draft : Draft T} {post : α → Draft T → Prop}
    {fault : ResolutionFault} (h : Spec m draft post) (hm : m draft = .error (.wrong fault)) :
    fault.OfScene := by
  unfold Spec at h; rw [hm] at h; exact h

/-! ## Steps that leave times and cue ids alone -/

/-- A step that only adds ends and counts components. -/
def Timed (m : Attempt T α) : Prop := ∀ draft, Spec m draft fun _ draft' => draft.Le draft'

theorem Timed.bind {m : Attempt T α} {f : α → Attempt T β} (h : Timed m)
    (hf : ∀ a, Timed (f a)) : Timed (m >>= f) :=
  fun draft => Spec.bind <| (h draft).mono fun a draft' hle =>
    (hf a draft').mono fun _ _ hle' => hle.trans hle'

theorem Timed.spec_bind {m : Attempt T α} {f : α → Attempt T β} {draft : Draft T}
    {post : β → Draft T → Prop} (h : Timed m)
    (hf : ∀ a draft', draft.Le draft' → Spec (f a) draft' post) : Spec (m >>= f) draft post :=
  Spec.bind ((h draft).mono hf)

theorem Timed.pure (a : α) : Timed (pure a : Attempt T α) := fun draft => .refl draft

theorem Timed.fail {fault : ResolutionFault} (h : fault.OfScene) :
    Timed (fail fault : Attempt T α) := fun _ => h

theorem Timed.waiting (r : Reference) : Timed (throw (.waiting r) : Attempt T α) :=
  fun _ => trivial

theorem Timed.ofExcept {m : Except ResolutionFault α}
    (h : ∀ fault, m = .error fault → fault.OfScene) : Timed (ofExcept m : Attempt T α) := by
  cases m with
  | ok a => exact .pure a
  | error fault => exact .fail (h fault rfl)

theorem noteEnd_timed (stop : Option T) : Timed (noteEnd stop) := by
  cases stop with
  | none => exact .pure ()
  | some t => exact fun draft => ⟨rfl, rfl, rfl, List.prefix_append .., Nat.le_refl _⟩

theorem nextIndex_timed : Timed (nextIndex : Attempt T Nat) :=
  fun _ => ⟨rfl, rfl, rfl, List.prefix_rfl, Nat.le_succ _⟩

/-! ## Attributes -/

theorem map?_ofScene {el : Element} {name place : String} {fault : ResolutionFault}
    (h : el.map? name place = .error fault) : fault.OfScene := by
  unfold Element.map? at h
  split at h <;> cases h
  trivial

theorem number?_ofScene {raw : Option String} {fault : ResolutionFault}
    (h : Element.number? raw = .error fault) : fault.OfScene := by
  unfold Element.number? at h
  split at h <;> cases h
  trivial

theorem addProps_ofScene {fault : ResolutionFault} : ∀ {attributes : List (String × String)}
    {props : Fields}, Element.addProps props attributes = .error fault → fault.OfScene
  | [], _, h => by cases h
  | (name, value) :: rest, props, h => by
      rw [Element.addProps] at h
      split at h
      · exact addProps_ofScene h
      · split at h
        · cases h; trivial
        · exact addProps_ofScene h

theorem props_ofScene {el : Element} {place : String} {fault : ResolutionFault}
    (h : el.props place = .error fault) : fault.OfScene := by
  unfold Element.props at h
  split at h
  · cases h; exact map?_ofScene ‹_›
  · exact addProps_ofScene h

variable [TimeScalar T] (setting : Setting T)

/-! ## Formulas -/

theorem evaluate_apply (raw : String) (draft : Draft T) :
    evaluate setting raw draft =
      (evaluateTime (knownNow setting draft) raw).mapError (Stop.mapWrong .time) >>=
        fun t => .ok (t, draft) := by
  simp only [evaluate, bind, StateT.bind, get, getThe, MonadStateOf.get, StateT.get, Except.bind,
    pure, Except.pure]
  cases evaluateTime (knownNow setting draft) raw <;> rfl

theorem evaluate_timed (raw : String) : Timed (evaluate setting raw) := by
  intro draft
  unfold Spec
  rw [evaluate_apply]
  cases evaluateTime (knownNow setting draft) raw with
  | ok t => exact .refl draft
  | error stop => cases stop <;> trivial

theorem time?_timed (el : Element) (name : String) : Timed (time? setting el name) := by
  unfold time?
  cases el.get? name with
  | none => exact .pure _
  | some raw => exact (evaluate_timed setting raw).bind fun _ => .pure _

theorem place?_timed (el : Element) (name : String) (base scale : T) :
    Timed (place? setting el name base scale) := by
  unfold place?
  cases el.get? name with
  | none => exact .pure _
  | some raw =>
      refine (evaluate_timed setting raw).bind fun value => ?_
      split <;> exact .pure _

theorem durationEnd?_timed (el : Element) (start scale : T) :
    Timed (durationEnd? setting el start scale) := by
  refine (time?_timed setting el "duration").bind fun duration => ?_
  split <;> exact .pure _

/-! ## What stands inside a scene -/

theorem pause_timed (el : Element) (place : String) : Timed (pause setting el place) := by
  refine (time?_timed setting el "seconds").bind fun seconds => ?_
  cases seconds with
  | some seconds => exact .pure _
  | none =>
      dsimp only
      split
      · refine (time?_timed setting el "mean").bind fun mean => ?_
        refine (time?_timed setting el "std").bind fun std => ?_
        split
        · refine (time?_timed setting el "min").bind fun min => ?_
          exact (time?_timed setting el "max").bind fun max => .pure _
        · exact .fail trivial
      · exact .fail trivial

theorem cueContent_timed (place : String) : ∀ children : List Element,
    Timed (cueContent setting place children)
  | [] => .pure _
  | child :: rest => by
      have ih := cueContent_timed place rest
      rw [cueContent]
      split
      · dsimp only
        split
        · exact ih
        · refine (time?_timed setting child "trim-end").bind fun trimEnd => ?_
          exact ih.bind fun content => .pure _
      · split
        · refine (pause_timed setting child place).bind fun p => ?_
          exact ih.bind fun content => .pure _
        · split
          · exact ih.bind fun content => .pure _
          · exact ih

theorem cueTimes_timed (el : Element) (id : String) (sceneStart scale : T) :
    Timed (cueTimes setting el id sceneStart scale) := by
  refine (place?_timed setting el "start" sceneStart scale).bind fun start => ?_
  cases start with
  | none =>
      dsimp only
      split
      · exact .fail trivial
      · exact .pure _
  | some start =>
      refine Timed.bind (fun draft => ⟨rfl, rfl, rfl, List.prefix_rfl, Nat.le_refl _⟩) fun _ => ?_
      refine (place?_timed setting el "end" sceneStart scale).bind fun placed => ?_
      have hrest : ∀ stop : Option T,
          Timed (do noteEnd stop; return (some start, stop) : Attempt T _) :=
        fun stop => (noteEnd_timed stop).bind fun _ => .pure _
      cases placed with
      | some t => exact hrest (some t)
      | none => exact (durationEnd?_timed setting el start scale).bind hrest

theorem window_timed (el : Element) (base : T) : Timed (window setting el base) := by
  refine (place?_timed setting el "start" base TimeScalar.one).bind fun start => ?_
  refine (place?_timed setting el "end" base TimeScalar.one).bind fun stop => ?_
  cases stop with
  | some stop => exact .pure _
  | none =>
      refine (time?_timed setting el "duration").bind fun duration => ?_
      split <;> exact .pure _

theorem component_timed (around : Surroundings T) (cursor : T) (el : Element) :
    Timed (component setting around cursor el) := by
  refine (window_timed setting el (around.ownBase cursor)).bind fun (start, explicit) => ?_
  refine (noteEnd_timed _).bind fun _ => nextIndex_timed.bind fun index => ?_
  refine (Timed.ofExcept fun _ => props_ofScene).bind fun props => ?_
  refine (Timed.ofExcept fun _ => number?_ofScene).bind fun z => ?_
  refine (Timed.ofExcept fun _ => map?_ofScene).bind fun styles => ?_
  exact (Timed.ofExcept fun _ => map?_ofScene).bind fun markup => .pure _

theorem defaultChildOf_timed (el : Element) : Timed (defaultChildOf setting el) := by
  refine (time?_timed setting el "default-child-duration").bind fun given => ?_
  cases given with
  | some t => exact .pure _
  | none => exact (time?_timed setting el "defaultChildDuration").bind fun _ => .pure _

theorem surroundingsOf_timed (around : Surroundings T) (start : T) (el : Element) :
    Timed (surroundingsOf setting around start el) := by
  refine (Timed.ofExcept fun _ => map?_ofScene).bind fun styles => ?_
  refine (Timed.ofExcept fun _ => map?_ofScene).bind fun markup => ?_
  exact (defaultChildOf_timed setting el).bind fun _ => .pure _

mutual

theorem container_timed (around : Surroundings T) (cursor : T) : ∀ el : Element,
    Timed (container setting around cursor el)
  | ⟨tag, attributes, children, text⟩ => by
      rw [container]
      refine (window_timed setting _ _).bind fun (start, explicit) => ?_
      refine (surroundingsOf_timed setting around start _).bind fun inner => ?_
      refine (contained_timed inner start none children).bind fun placed => ?_
      exact (noteEnd_timed _).bind fun _ => .pure _

theorem contained_timed (around : Surroundings T) (cursor : T) (latest : Option T) :
    ∀ children : List Element, Timed (contained setting around cursor latest children)
  | [] => by rw [contained]; exact .pure _
  | child :: rest => by
      rw [contained]
      split
      · refine (container_timed around cursor child).bind fun (found, stop) => ?_
        exact (contained_timed around _ _ rest).bind fun _ => .pure _
      · split
        · exact contained_timed around cursor latest rest
        · refine (component_timed setting around cursor child).bind fun c => ?_
          exact (contained_timed around _ _ rest).bind fun _ => .pure _

end

theorem layer_timed (el : Element) (sceneStart : T) (place : String) :
    Timed (layer setting el sceneStart place) := by
  unfold layer
  cases el.get? "id" with
  | none => exact .fail trivial
  | some id =>
      refine (window_timed setting el sceneStart).bind fun (start, explicit) => ?_
      refine (contained_timed setting _ start none el.children).bind fun placed => ?_
      refine (noteEnd_timed _).bind fun _ => ?_
      refine (Timed.ofExcept fun _ => number?_ofScene).bind fun z => ?_
      refine (Timed.ofExcept fun _ => map?_ofScene).bind fun styles => ?_
      exact (Timed.ofExcept fun _ => map?_ofScene).bind fun markup => .pure _

/-! ## Cues -/

/-- The ids of the cues among some elements. -/
def cueIdsOf (children : List Element) : List String :=
  children.filterMap fun child => if child.tag == "cue" then child.get? "id" else none

theorem cueIdsOf_cons (child : Element) (rest : List Element) :
    cueIdsOf (child :: rest) =
      (if child.tag == "cue" then child.get? "id" else none).toList ++ cueIdsOf rest := by
  unfold cueIdsOf
  rw [List.filterMap_cons]
  split <;> simp_all

/-- The ids that a cue may not have at this point of the attempt. -/
def takenNow (setting : Setting T) (draft : Draft T) : List String :=
  draft.cueIds ++ setting.takenCues

theorem cue_spec (el : Element) (sceneStart scale : T) (place : String) (draft : Draft T) :
    Spec (cue setting el sceneStart scale place) draft fun c draft' =>
      el.get? "id" = some c.id ∧ c.id ∉ takenNow setting draft ∧
        draft'.cueIds = c.id :: draft.cueIds := by
  unfold cue
  cases hid : el.get? "id" with
  | none => trivial
  | some id =>
      refine Spec.bind ?_
      show Spec (if _ then _ else _) draft _
      by_cases htaken : (setting.takenCues.contains id || draft.cueIds.contains id) = true
      · rw [if_pos htaken]; trivial
      · rw [if_neg htaken]
        refine Spec.bind ?_
        show Spec _ { draft with cueIds := id :: draft.cueIds } _
        refine (cueTimes_timed setting el id sceneStart scale).spec_bind fun _ draft₁ h₁ => ?_
        refine (cueContent_timed setting place el.children).spec_bind fun _ draft₂ h₂ => ?_
        refine ⟨rfl, ?_, h₂.cueIds.trans h₁.cueIds⟩
        simpa [takenNow, and_comm] using htaken

/-- Cues that are those of some markup, under distinct ids of which none was taken. -/
structure FreshCues (taken : List String) (children : List Element) (cues : List (Cue T)) :
    Prop where
  ids : cues.map Cue.id = cueIdsOf children
  nodup : (cueIdsOf children).Nodup
  fresh : ∀ id ∈ cueIdsOf children, id ∉ taken

omit [TimeScalar T] in
theorem FreshCues.cons {taken : List String} {child : Element} {rest : List Element} {c : Cue T}
    {cues : List (Cue T)} (htag : (child.tag == "cue") = true) (hid : child.get? "id" = some c.id)
    (hfree : c.id ∉ taken) (h : FreshCues (c.id :: taken) rest cues) :
    FreshCues taken (child :: rest) (c :: cues) := by
  have hids : cueIdsOf (child :: rest) = c.id :: cueIdsOf rest := by
    rw [cueIdsOf_cons, if_pos htag, hid]; rfl
  refine ⟨by rw [hids, List.map_cons, h.ids], ?_, ?_⟩
  · rw [hids]
    exact List.nodup_cons.mpr ⟨fun hmem => h.fresh _ hmem List.mem_cons_self, h.nodup⟩
  · intro id hmem
    rw [hids] at hmem
    rcases List.mem_cons.mp hmem with rfl | hmem
    · exact hfree
    · exact fun ht => h.fresh id hmem (List.mem_cons_of_mem _ ht)

omit [TimeScalar T] in
theorem FreshCues.skip {taken : List String} {child : Element} {rest : List Element}
    {cues : List (Cue T)} (htag : ¬(child.tag == "cue") = true)
    (h : FreshCues taken rest cues) : FreshCues taken (child :: rest) cues := by
  have hids : cueIdsOf (child :: rest) = cueIdsOf rest := by
    rw [cueIdsOf_cons, if_neg htag]; rfl
  exact ⟨h.ids.trans hids.symm, hids ▸ h.nodup, hids ▸ h.fresh⟩

/-- The cue among the items of a scene. -/
def itemCue? : SceneItem T → Option (Cue T)
  | .cue cue => some cue
  | .pause _ => none

/-- What is said of the cues among the children of a scene is proved along the children. It starts
with no cue, every cue adds to it, and all other children leave the cue ids of the draft alone. -/
theorem sceneContent_rule {start scale : T} {place : String}
    (post : List Element → Draft T → List (Cue T) → Prop) (nil : ∀ draft, post [] draft [])
    (cue : ∀ child rest draft, (child.tag == "cue") = true →
      Spec (cue setting child start scale place) draft fun c draft' =>
        ∀ cues, post rest draft' cues → post (child :: rest) draft (c :: cues))
    (skip : ∀ child rest draft draft' cues, ¬(child.tag == "cue") = true → draft.Le draft' →
      post rest draft' cues → post (child :: rest) draft cues) :
    ∀ (children : List Element) (draft : Draft T),
      Spec (sceneContent setting start scale place children) draft fun content _ =>
        post children draft (content.items.filterMap itemCue?)
  | [], draft => nil draft
  | child :: rest, draft => by
      have ih := sceneContent_rule post nil cue skip rest
      rw [sceneContent]
      split
      · rename_i htag
        refine Spec.bind <| (cue child rest draft htag).mono fun c draft₁ hcue => ?_
        exact Spec.bind <| (ih draft₁).mono fun content _ h => hcue _ h
      · rename_i htag
        have ih' : ∀ draft', draft.Le draft' →
            Spec (sceneContent setting start scale place rest) draft' fun content _ =>
              post (child :: rest) draft (content.items.filterMap itemCue?) :=
          fun draft' hle => (ih draft').mono fun content _ h =>
            skip child rest draft draft' _ htag hle h
        split
        · refine (pause_timed setting child place).spec_bind fun p draft' hle => ?_
          exact Spec.bind (ih' draft' hle)
        · split
          · refine (layer_timed setting child start place).spec_bind fun l draft' hle => ?_
            exact Spec.bind (ih' draft' hle)
          · split
            · refine (container_timed setting (top start place) start child).spec_bind ?_
              exact fun _ draft' hle => Spec.bind (ih' draft' hle)
            · split
              · exact ih' draft (.refl draft)
              · refine (component_timed setting (top start place) start child).spec_bind ?_
                exact fun c draft' hle => Spec.bind (ih' draft' hle)

theorem sceneContent_spec (start scale : T) (place : String) (children : List Element)
    (draft : Draft T) :
    Spec (sceneContent setting start scale place children) draft fun content _ =>
      FreshCues (takenNow setting draft) children (content.items.filterMap itemCue?) := by
  refine sceneContent_rule setting
    (fun children draft cues => FreshCues (takenNow setting draft) children cues)
    (fun _ => ⟨rfl, List.nodup_nil, by simp [cueIdsOf]⟩) ?_ ?_ children draft
  · intro child rest draft htag
    refine (cue_spec setting child start scale place draft).mono ?_
    intro c draft₁ ⟨hid, hfree, hids⟩ cues h
    rw [takenNow, hids] at h
    exact .cons htag hid hfree h
  · intro child rest draft draft' cues htag hle h
    rw [takenNow, hle.cueIds] at h
    exact .skip htag h

/-! ## Scenes -/

theorem sceneStart_timed (el : Element) : Timed (sceneStart setting el) := by
  refine (time?_timed setting el "start").bind fun start => ?_
  cases start with
  | some start => exact .pure _
  | none =>
      dsimp only
      split
      · exact .pure _
      · split
        · exact .waiting _
        · exact .pure _

theorem sceneEnd_timed (el : Element) (start scale : T) :
    Timed (sceneEnd setting el start scale) := by
  refine (time?_timed setting el "end").bind fun stop => ?_
  cases stop with
  | some stop => exact .pure _
  | none => exact durationEnd?_timed setting el start scale

theorem checkEnd_timed (place : String) (start : T) (stop : Option T) :
    Timed (checkEnd place start stop) := by
  cases stop with
  | none => exact .pure ()
  | some t =>
      dsimp only [checkEnd]
      split
      · exact .fail trivial
      · exact .pure ()

theorem closeScene_spec (id : String) (el : Element) (place : String) (start : T)
    (explicit : Option T) (content : SceneContent T) (draft : Draft T) :
    Spec (closeScene id el place start explicit content) draft fun s _ =>
      s.id = id ∧ s.items = content.items := by
  refine Spec.bind ?_
  refine (checkEnd_timed place start _).spec_bind fun _ _ _ => ?_
  refine (Timed.ofExcept fun _ => map?_ofScene).spec_bind fun styles _ _ => ?_
  exact (Timed.ofExcept fun _ => map?_ofScene).spec_bind fun markup _ _ => ⟨rfl, rfl⟩

/-- A scene has the id it was asked for, and the cues of its markup. -/
theorem scene_spec (id : String) (el : Element) :
    Spec (scene setting id el) {} fun s _ =>
      s.id = id ∧ FreshCues setting.takenCues el.children s.cues := by
  refine (sceneStart_timed setting el).spec_bind fun start draft₁ h₁ => Spec.bind ?_
  show Spec _ { draft₁ with sceneStart := [(id, start)] } _
  refine (sceneEnd_timed setting el start _).spec_bind fun explicit draft₂ h₂ => Spec.bind ?_
  have hids : draft₂.cueIds = [] := h₂.cueIds.trans h₁.cueIds
  have hnote : Spec (noteSceneEnd id explicit) draft₂ fun _ draft => draft.cueIds = [] := by
    cases explicit <;> exact hids
  refine hnote.mono fun _ draft₃ h₃ => Spec.bind ?_
  refine (sceneContent_spec setting start _ _ el.children draft₃).mono
    fun content draft₄ hcues => ?_
  refine (closeScene_spec id el _ start explicit content draft₄).mono fun s _ ⟨hid, hitems⟩ => ?_
  rw [takenNow, h₃, List.nil_append, ← hitems] at hcues
  exact ⟨hid, hcues⟩

theorem run_spec {id : String} {el : Element} {s : Scene T}
    (h : run setting id el = .ok s) :
    s.id = id ∧ FreshCues setting.takenCues el.children s.cues := by
  unfold run at h
  cases hm : scene setting id el {} with
  | error stop => rw [hm] at h; cases h
  | ok r =>
      rw [hm] at h
      cases h
      exact (scene_spec setting id el).ok hm

/-- An attempt never fails for a reason that concerns the resolution as a whole. -/
theorem run_wrong {id : String} {el : Element} {fault : ResolutionFault}
    (h : run setting id el = .error (.wrong fault)) : fault.OfScene := by
  unfold run at h
  cases hm : scene setting id el {} with
  | error stop =>
      rw [hm] at h
      cases h
      exact (scene_spec setting id el).wrong hm
  | ok r => rw [hm] at h; cases h

end Attempt

end Cuesheet
