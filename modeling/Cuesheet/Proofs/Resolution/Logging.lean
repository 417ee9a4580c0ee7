import Cuesheet.Proofs.Resolution.Draft

/-!
# Ends are a log

Until a scene is closed nothing looks at the ends that were noted before: every step only adds to
them (`Blind`). What stands inside a container leaves the rest of the draft alone as well, but for
the number of components (`Local`), so that what is known does not change inside it
(`Local.knownNow`).
-/

namespace Cuesheet.Attempt

variable {T α β : Type} {m : Attempt T α} {draft draft' : Draft T} {a : α}

/-- A step notes ends, whatever was noted before, and counts components. -/
def Local (m : Attempt T α) : Prop := ∀ draft : Draft T,
  (∃ stop, ∀ ends, m { draft with ends } = .error stop) ∨
    ∃ a new components, ∀ ends,
      m { draft with ends } = .ok (a, { draft with ends := ends ++ new, components })

/-- A step notes ends, whatever was noted before, and may change the rest of the draft. -/
def Blind (m : Attempt T α) : Prop := ∀ draft : Draft T,
  (∃ stop, ∀ ends, m { draft with ends } = .error stop) ∨
    ∃ (a : α) (after : Draft T), ∀ ends,
      m { draft with ends } = .ok (a, { after with ends := ends ++ after.ends })

/-! ## Steps one after the other -/

theorem bind_ok {f : α → Attempt T β} {b : β} (h : (m >>= f) draft = .ok (b, draft')) :
    ∃ a between, m draft = .ok (a, between) ∧ f a between = .ok (b, draft') := by
  have hb : (m >>= f) draft = m draft >>= fun r => f r.1 r.2 := rfl
  rw [hb] at h
  cases hm : m draft with
  | error stop => rw [hm] at h; cases h
  | ok r => rw [hm] at h; exact ⟨r.1, r.2, rfl, h⟩

theorem bind_of_ok {f : α → Attempt T β} (h : m draft = .ok (a, draft')) :
    (m >>= f) draft = f a draft' := by
  have hb : (m >>= f) draft = m draft >>= fun r => f r.1 r.2 := rfl
  rw [hb, h]
  rfl

theorem bind_of_error {f : α → Attempt T β} {stop : AttemptStop} (h : m draft = .error stop) :
    (m >>= f) draft = .error stop := by
  have hb : (m >>= f) draft = m draft >>= fun r => f r.1 r.2 := rfl
  rw [hb, h]
  rfl

namespace Local

theorem pure (a : α) : Local (pure a : Attempt T α) := fun draft =>
  .inr ⟨a, [], draft.components, fun ends => by rw [List.append_nil]; rfl⟩

theorem throw (stop : AttemptStop) : Local (throw stop : Attempt T α) := fun _ =>
  .inl ⟨stop, fun _ => rfl⟩

theorem bind {f : α → Attempt T β} (h : Local m) (hf : ∀ a, Local (f a)) : Local (m >>= f) := by
  intro draft
  rcases h draft with ⟨stop, hstop⟩ | ⟨a, new, components, hm⟩
  · exact .inl ⟨stop, fun ends => bind_of_error (hstop ends)⟩
  · rcases hf a { draft with components } with ⟨stop, hstop⟩ | ⟨b, new', components', hfa⟩
    · exact .inl ⟨stop, fun ends => (bind_of_ok (hm ends)).trans (hstop _)⟩
    · refine .inr ⟨b, new ++ new', components', fun ends => ?_⟩
      rw [bind_of_ok (hm ends), ← List.append_assoc]
      exact hfa (ends ++ new)

theorem ofExcept (x : Except ResolutionFault α) : Local (ofExcept x : Attempt T α) := by
  cases x with
  | ok a => exact .pure a
  | error fault => exact .throw _

theorem blind (h : Local m) : Blind m := by
  intro draft
  refine (h draft).imp_right fun ⟨a, new, components, hm⟩ => ?_
  exact ⟨a, { draft with ends := new, components }, hm⟩

/-- A step that succeeds says which ends it notes, and succeeds whatever was noted before. -/
theorem ok (h : Local m) (hm : m draft = .ok (a, draft')) : ∃ new components, ∀ ends,
    m { draft with ends } = .ok (a, { draft with ends := ends ++ new, components }) ∧
      draft' = { draft with ends := draft.ends ++ new, components } := by
  rcases h draft with ⟨stop, hstop⟩ | ⟨b, new, components, hok⟩
  · cases hm.symm.trans (hstop draft.ends)
  · have hsame := hm.symm.trans (hok draft.ends)
    simp only [Except.ok.injEq, Prod.mk.injEq] at hsame
    obtain ⟨rfl, hdraft⟩ := hsame
    exact ⟨new, components, fun ends => ⟨hok ends, hdraft⟩⟩

end Local

namespace Blind

theorem bind {f : α → Attempt T β} (h : Blind m) (hf : ∀ a, Blind (f a)) : Blind (m >>= f) := by
  intro draft
  rcases h draft with ⟨stop, hstop⟩ | ⟨a, between, hm⟩
  · exact .inl ⟨stop, fun ends => bind_of_error (hstop ends)⟩
  · rcases hf a between with ⟨stop, hstop⟩ | ⟨b, after, hfa⟩
    · exact .inl ⟨stop, fun ends => (bind_of_ok (hm ends)).trans (hstop _)⟩
    · refine .inr ⟨b, { after with ends := between.ends ++ after.ends }, fun ends => ?_⟩
      rw [bind_of_ok (hm ends), ← List.append_assoc]
      exact hfa (ends ++ between.ends)

/-- A step may look at the ids of the cues so far. -/
theorem cueIds {f : List String → Attempt T α} (hf : ∀ ids, Blind (f ids)) :
    Blind (get >>= fun draft => f draft.cueIds) := fun draft => hf draft.cueIds draft

/-- A change of anything but the ends. -/
theorem modify {f : Draft T → Draft T}
    (hf : ∀ draft ends, f { draft with ends } = { f draft with ends }) :
    Blind (modify f : Attempt T Unit) := by
  intro draft
  refine .inr ⟨(), { f draft with ends := [] }, fun ends => ?_⟩
  rw [List.append_nil, ← hf]
  rfl

theorem ok (h : Blind m) (hm : m draft = .ok (a, draft')) : ∃ new, ∀ ends,
    m { draft with ends } = .ok (a, { draft' with ends := ends ++ new }) ∧
      draft'.ends = draft.ends ++ new := by
  rcases h draft with ⟨stop, hstop⟩ | ⟨b, after, hok⟩
  · cases hm.symm.trans (hstop draft.ends)
  · have hsame := hm.symm.trans (hok draft.ends)
    simp only [Except.ok.injEq, Prod.mk.injEq] at hsame
    obtain ⟨rfl, rfl⟩ := hsame
    exact ⟨after.ends, fun ends => ⟨hok ends, rfl⟩⟩

end Blind

theorem noteEnd_local (stop : Option T) : Local (noteEnd stop) := by
  cases stop with
  | none => exact .pure ()
  | some t => exact fun draft => .inr ⟨(), [t], draft.components, fun _ => rfl⟩

theorem nextIndex_local : Local (nextIndex : Attempt T Nat) := fun draft =>
  .inr ⟨draft.components, [], draft.components + 1, fun ends => by rw [List.append_nil]; rfl⟩

variable [TimeScalar T] (setting : Setting T)

omit [TimeScalar T] in
/-- Inside a container nothing is learnt. -/
theorem Local.knownNow (h : Local m) (hm : m draft = .ok (a, draft')) :
    knownNow setting draft' = knownNow setting draft := by
  obtain ⟨new, components, hok⟩ := h.ok hm
  rw [(hok []).2]
  rfl

/-! ## Formulas -/

theorem evaluate_local (raw : String) : Local (evaluate setting raw) := by
  intro draft
  have happly : ∀ ends, evaluate setting raw { draft with ends } =
      (evaluateTime (Attempt.knownNow setting draft) raw).mapError (Stop.mapWrong .time) >>=
        fun t => .ok (t, { draft with ends }) := fun ends => evaluate_apply setting raw _
  cases hvalue : evaluateTime (Attempt.knownNow setting draft) raw with
  | ok t =>
      refine .inr ⟨t, [], draft.components, fun ends => ?_⟩
      rw [happly, hvalue, List.append_nil]
      rfl
  | error stop => exact .inl ⟨_, fun ends => by rw [happly, hvalue]; rfl⟩

theorem time?_local (el : Element) (name : String) : Local (time? setting el name) := by
  unfold time?
  cases el.get? name with
  | none => exact .pure _
  | some raw => exact (evaluate_local setting raw).bind fun _ => .pure _

theorem place?_local (el : Element) (name : String) (base scale : T) :
    Local (place? setting el name base scale) := by
  unfold place?
  cases el.get? name with
  | none => exact .pure _
  | some raw =>
      refine (evaluate_local setting raw).bind fun value => ?_
      split <;> exact .pure _

theorem durationEnd?_local (el : Element) (start scale : T) :
    Local (durationEnd? setting el start scale) := by
  refine (time?_local setting el "duration").bind fun duration => ?_
  split <;> exact .pure _

/-! ## What stands inside a scene -/

theorem pause_local (el : Element) (place : String) : Local (pause setting el place) := by
  refine (time?_local setting el "seconds").bind fun seconds => ?_
  cases seconds with
  | some seconds => exact .pure _
  | none =>
      dsimp only
      split
      · refine (time?_local setting el "mean").bind fun mean => ?_
        refine (time?_local setting el "std").bind fun std => ?_
        split
        · refine (time?_local setting el "min").bind fun min => ?_
          exact (time?_local setting el "max").bind fun max => .pure _
        · exact .throw _
      · exact .throw _

theorem cueContent_local (place : String) (children : List Element) :
    Local (cueContent setting place children) := by
  induction children with
  | nil => exact .pure _
  | cons child rest ih =>
      rw [cueContent]
      split
      · dsimp only
        split
        · exact ih
        · refine (time?_local setting child "trim-end").bind fun trimEnd => ?_
          exact ih.bind fun content => .pure _
      · split
        · refine (pause_local setting child place).bind fun p => ?_
          exact ih.bind fun content => .pure _
        · split
          · exact ih.bind fun content => .pure _
          · exact ih

theorem window_local (el : Element) (base : T) : Local (window setting el base) := by
  refine (place?_local setting el "start" base TimeScalar.one).bind fun start => ?_
  refine (place?_local setting el "end" base TimeScalar.one).bind fun stop => ?_
  cases stop with
  | some stop => exact .pure _
  | none =>
      refine (time?_local setting el "duration").bind fun duration => ?_
      split <;> exact .pure _

theorem component_local (around : Surroundings T) (cursor : T) (el : Element) :
    Local (component setting around cursor el) := by
  refine (window_local setting el (around.ownBase cursor)).bind fun _ => ?_
  refine (noteEnd_local _).bind fun _ => nextIndex_local.bind fun index => ?_
  refine (Local.ofExcept _).bind fun props => (Local.ofExcept _).bind fun z => ?_
  exact (Local.ofExcept _).bind fun styles => (Local.ofExcept _).bind fun markup => .pure _

theorem defaultChildOf_local (el : Element) : Local (defaultChildOf setting el) := by
  refine (time?_local setting el "default-child-duration").bind fun given => ?_
  cases given with
  | some t => exact .pure _
  | none => exact (time?_local setting el "defaultChildDuration").bind fun _ => .pure _

theorem surroundingsOf_local (around : Surroundings T) (start : T) (el : Element) :
    Local (surroundingsOf setting around start el) := by
  refine (Local.ofExcept _).bind fun styles => (Local.ofExcept _).bind fun markup => ?_
  exact (defaultChildOf_local setting el).bind fun _ => .pure _

mutual

theorem container_local (around : Surroundings T) (cursor : T) : ∀ el : Element,
    Local (container setting around cursor el)
  | ⟨tag, attributes, children, text⟩ => by
      rw [container]
      refine (window_local setting _ _).bind fun (start, explicit) => ?_
      refine (surroundingsOf_local setting around start _).bind fun inner => ?_
      refine (contained_local inner start none children).bind fun placed => ?_
      exact (noteEnd_local _).bind fun _ => .pure _

theorem contained_local (around : Surroundings T) (cursor : T) (latest : Option T) :
    ∀ children : List Element, Local (contained setting around cursor latest children)
  | [] => by rw [contained]; exact .pure _
  | child :: rest => by
      rw [contained]
      split
      · refine (container_local around cursor child).bind fun (found, stop) => ?_
        exact (contained_local around _ _ rest).bind fun _ => .pure _
      · split
        · exact contained_local around cursor latest rest
        · refine (component_local setting around cursor child).bind fun c => ?_
          exact (contained_local around _ _ rest).bind fun _ => .pure _

end

theorem layer_local (el : Element) (sceneStart : T) (place : String) :
    Local (layer setting el sceneStart place) := by
  unfold layer
  cases el.get? "id" with
  | none => exact .throw _
  | some id =>
      refine (window_local setting el sceneStart).bind fun (start, explicit) => ?_
      refine (contained_local setting _ start none el.children).bind fun placed => ?_
      refine (noteEnd_local _).bind fun _ => ?_
      refine (Local.ofExcept _).bind fun z => (Local.ofExcept _).bind fun styles => ?_
      exact (Local.ofExcept _).bind fun markup => .pure _

/-! ## Cues and scenes -/

theorem cueTimes_blind (el : Element) (id : String) (sceneStart scale : T) :
    Blind (cueTimes setting el id sceneStart scale) := by
  refine (place?_local setting el "start" sceneStart scale).blind.bind fun start => ?_
  cases start with
  | none =>
      dsimp only
      split
      · exact (Local.throw _).blind
      · exact (Local.pure _).blind
  | some start =>
      refine (Blind.modify fun _ _ => rfl).bind fun _ => ?_
      refine (place?_local setting el "end" sceneStart scale).blind.bind fun placed => ?_
      have hrest : ∀ stop : Option T,
          Blind (do noteEnd stop; return (some start, stop) : Attempt T _) :=
        fun stop => ((noteEnd_local stop).bind fun _ => .pure _).blind
      cases placed with
      | some t => exact hrest (some t)
      | none => exact (durationEnd?_local setting el start scale).blind.bind hrest

theorem cue_blind (el : Element) (sceneStart scale : T) (place : String) :
    Blind (cue setting el sceneStart scale place) := by
  unfold cue
  cases el.get? "id" with
  | none => exact (Local.throw _).blind
  | some id =>
      refine Blind.cueIds (f := fun ids => if setting.takenCues.contains id || ids.contains id
        then _ else _) fun ids => ?_
      split
      · exact (Local.throw _).blind
      · refine (Blind.modify fun _ _ => rfl).bind fun _ => ?_
        refine (cueTimes_blind setting el id sceneStart scale).bind fun (start, stop) => ?_
        exact ((cueContent_local setting place el.children).bind fun _ => .pure _).blind

theorem sceneContent_blind (start scale : T) (place : String) : ∀ children : List Element,
    Blind (sceneContent setting start scale place children)
  | [] => (Local.pure _).blind
  | child :: rest => by
      have ih := sceneContent_blind start scale place rest
      rw [sceneContent]
      split
      · exact (cue_blind setting child start scale place).bind fun c =>
          ih.bind fun _ => (Local.pure _).blind
      · split
        · exact (pause_local setting child place).blind.bind fun p =>
            ih.bind fun _ => (Local.pure _).blind
        · split
          · exact (layer_local setting child start place).blind.bind fun l =>
              ih.bind fun _ => (Local.pure _).blind
          · split
            · exact (container_local setting _ start child).blind.bind fun _ =>
                ih.bind fun _ => (Local.pure _).blind
            · split
              · exact ih
              · exact (component_local setting _ start child).blind.bind fun c =>
                  ih.bind fun _ => (Local.pure _).blind

end Cuesheet.Attempt
