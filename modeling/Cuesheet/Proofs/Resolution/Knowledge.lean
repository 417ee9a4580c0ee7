import Cuesheet.Proofs.Expr.Monotone
import Cuesheet.Proofs.Resolution.Draft

/-!
# Attempts under growing knowledge

An attempt that does not wait comes out the same when it starts from more: `scene_settles` and
`run_settled` carry `evaluate_settled` through everything a scene can hold. The one thing that may
come in between is the id of a cue that another scene has taken meanwhile.
-/

namespace Cuesheet

/-- Whatever an attempt starts from the other starts from too. A neighbour that is resolved is
known whole: once the start of the scene before is known, its end does not change any more. -/
structure Setting.Le {T : Type} (setting more : Setting T) : Prop where
  known : setting.known.Le more.known
  previous : ∀ {t : T}, setting.known.prevStart = some t →
    more.known.prevEnd = setting.known.prevEnd
  taken : setting.takenCues ⊆ more.takenCues
  isFirst : more.isFirst = setting.isFirst
  scale : more.scale = setting.scale

namespace Attempt

variable {T : Type} [TimeScalar T] {α β : Type} {late : ResolutionFault → Prop}
  {setting more : Setting T}

omit [TimeScalar T] in
/-- What an attempt has learnt itself shadows the same times on both sides. -/
theorem knownNow_le (h : setting.Le more) (draft : Draft T) :
    (knownNow setting draft).Le (knownNow more draft) where
  fps := h.known.fps
  lookup := by
    have hor : ∀ {a b c : Option T} {t : T}, (∀ {t}, b = some t → c = some t) →
        a.or b = some t → a.or c = some t := by
      intro a b c t hbc hab
      cases a with
      | none => exact hbc hab
      | some v => exact hab
    intro r t hr
    cases r with
    | scene id => exact hor (h.known.lookup (.scene id)) hr
    | sceneStart id => exact hor (h.known.lookup (.sceneStart id)) hr
    | sceneEnd id => exact hor (h.known.lookup (.sceneEnd id)) hr
    | cue id => exact hor (h.known.lookup (.cue id)) hr
    | cueStart id => exact hor (h.known.lookup (.cueStart id)) hr
    | prevStart => exact h.known.lookup .prevStart hr
    | prevEnd => exact h.known.lookup .prevEnd hr
    | nextStart => exact h.known.lookup .nextStart hr

/-! ## Steps -/

/-- The step comes out the same with more knowledge, from every draft, unless it waits. -/
def Settles (late : ResolutionFault → Prop) (m m' : Attempt T α) : Prop :=
  ∀ draft, Settled late (m draft) (m' draft)

omit [TimeScalar T] in
theorem Settles.same (m : Attempt T α) : Settles late m m := fun _ => .same _

omit [TimeScalar T] in
theorem Settles.bind {m m' : Attempt T α} {f f' : α → Attempt T β} (h : Settles late m m')
    (hf : ∀ a, Settles late (f a) (f' a)) : Settles late (m >>= f) (m' >>= f') :=
  fun draft => (h draft).bind fun (a, draft) => hf a draft

/-! ## Formulas -/

theorem evaluate_settles (h : setting.Le more) (raw : String) :
    Settles late (evaluate setting raw) (evaluate more raw) := by
  intro draft
  have hs : Settled (fun _ => False) (evaluateTime (knownNow setting draft) raw)
      (evaluateTime (knownNow more draft) raw) :=
    evaluateTime_settled (knownNow_le h draft) raw
  rw [evaluate_apply, evaluate_apply]
  exact (hs.mapError fun _ => False.elim).bind fun t => .same _

theorem time?_settles (h : setting.Le more) (el : Element) (name : String) :
    Settles late (time? setting el name) (time? more el name) := by
  unfold time?
  cases el.get? name with
  | none => exact .same _
  | some raw => exact (evaluate_settles h raw).bind fun _ => .same _

theorem place?_settles (h : setting.Le more) (el : Element) (name : String) (base scale : T) :
    Settles late (place? setting el name base scale) (place? more el name base scale) := by
  unfold place?
  cases el.get? name with
  | none => exact .same _
  | some raw => exact (evaluate_settles h raw).bind fun _ => .same _

theorem durationEnd?_settles (h : setting.Le more) (el : Element) (start scale : T) :
    Settles late (durationEnd? setting el start scale) (durationEnd? more el start scale) :=
  (time?_settles h el "duration").bind fun _ => .same _

/-! ## Cues and pauses -/

theorem pause_settles (h : setting.Le more) (el : Element) (place : String) :
    Settles late (pause setting el place) (pause more el place) := by
  refine (time?_settles h el "seconds").bind fun seconds => ?_
  cases seconds with
  | some seconds => exact .same _
  | none =>
      dsimp only
      split
      · refine (time?_settles h el "mean").bind fun mean => ?_
        refine (time?_settles h el "std").bind fun std => ?_
        split
        · refine (time?_settles h el "min").bind fun min => ?_
          exact (time?_settles h el "max").bind fun max => .same _
        · exact .same _
      · exact .same _

theorem cueContent_settles (h : setting.Le more) (place : String) (children : List Element) :
    Settles late (cueContent setting place children) (cueContent more place children) := by
  induction children with
  | nil => exact .same _
  | cons child rest ih =>
      rw [cueContent, cueContent]
      split
      · dsimp only
        split
        · exact ih
        · refine (time?_settles h child "trim-end").bind fun trimEnd => ?_
          exact ih.bind fun content => .same _
      · split
        · refine (pause_settles h child place).bind fun p => ?_
          exact ih.bind fun content => .same _
        · split
          · exact ih.bind fun content => .same _
          · exact ih

theorem cueTimes_settles (h : setting.Le more) (el : Element) (id : String)
    (sceneStart scale : T) :
    Settles late (cueTimes setting el id sceneStart scale)
      (cueTimes more el id sceneStart scale) := by
  refine (place?_settles h el "start" sceneStart scale).bind fun start => ?_
  cases start with
  | none => exact .same _
  | some start =>
      refine (Settles.same _).bind fun _ => ?_
      refine (place?_settles h el "end" sceneStart scale).bind fun placed => ?_
      cases placed with
      | some t => exact .same _
      | none => exact (durationEnd?_settles h el start scale).bind fun stop => .same _

/-- A cue whose id another scene has taken meanwhile is refused; nothing else changes. -/
theorem cue_settles (h : setting.Le more) (el : Element) (sceneStart scale : T) (place : String)
    (hlate : ∀ id, el.get? "id" = some id → id ∈ more.takenCues → late (.duplicateCue id)) :
    Settles late (cue setting el sceneStart scale place) (cue more el sceneStart scale place) := by
  unfold cue
  cases hid : el.get? "id" with
  | none => exact .same _
  | some id =>
      refine Settles.bind (.same get) fun draft => ?_
      by_cases hmore : (more.takenCues.contains id || draft.cueIds.contains id) = true
      · rw [if_pos hmore]
        by_cases hself : (setting.takenCues.contains id || draft.cueIds.contains id) = true
        · rw [if_pos hself]; exact .same _
        · have hid' : id ∈ more.takenCues := by simp_all
          exact fun _ => .refused _ (hlate id hid hid')
      · have hself : ¬(setting.takenCues.contains id || draft.cueIds.contains id) = true := by
          simp only [Bool.or_eq_true, List.contains_iff_mem, not_or] at hmore ⊢
          exact ⟨fun hid' => hmore.1 (h.taken hid'), hmore.2⟩
        rw [if_neg hmore, if_neg hself]
        refine Settles.bind (.same _) fun _ => ?_
        refine (cueTimes_settles h el id sceneStart scale).bind fun (start, stop) => ?_
        exact (cueContent_settles h place el.children).bind fun _ => .same _

/-! ## Components and containers -/

theorem window_settles (h : setting.Le more) (el : Element) (base : T) :
    Settles late (window setting el base) (window more el base) := by
  refine (place?_settles h el "start" base TimeScalar.one).bind fun start => ?_
  refine (place?_settles h el "end" base TimeScalar.one).bind fun stop => ?_
  cases stop with
  | some stop => exact .same _
  | none => exact (time?_settles h el "duration").bind fun _ => .same _

theorem component_settles (h : setting.Le more) (around : Surroundings T) (cursor : T)
    (el : Element) :
    Settles late (component setting around cursor el) (component more around cursor el) :=
  (window_settles h el (around.ownBase cursor)).bind fun _ => .same _

theorem defaultChildOf_settles (h : setting.Le more) (el : Element) :
    Settles late (defaultChildOf setting el) (defaultChildOf more el) := by
  refine (time?_settles h el "default-child-duration").bind fun given => ?_
  cases given with
  | some t => exact .same _
  | none => exact (time?_settles h el "defaultChildDuration").bind fun _ => .same _

theorem surroundingsOf_settles (h : setting.Le more) (around : Surroundings T) (start : T)
    (el : Element) :
    Settles late (surroundingsOf setting around start el)
      (surroundingsOf more around start el) := by
  refine (Settles.same _).bind fun styles => (Settles.same _).bind fun markup => ?_
  exact (defaultChildOf_settles h el).bind fun _ => .same _

mutual

theorem container_settles (h : setting.Le more) (around : Surroundings T) (cursor : T) :
    ∀ el : Element,
      Settles late (container setting around cursor el) (container more around cursor el)
  | ⟨tag, attributes, children, text⟩ => by
      rw [container, container]
      refine (window_settles h _ _).bind fun (start, explicit) => ?_
      refine (surroundingsOf_settles h around start _).bind fun inner => ?_
      exact (contained_settles h inner start none children).bind fun _ => .same _

theorem contained_settles (h : setting.Le more) (around : Surroundings T) (cursor : T)
    (latest : Option T) : ∀ children : List Element,
      Settles late (contained setting around cursor latest children)
        (contained more around cursor latest children)
  | [] => by rw [contained, contained]; exact .same _
  | child :: rest => by
      rw [contained, contained]
      split
      · refine (container_settles h around cursor child).bind fun (found, stop) => ?_
        exact (contained_settles h around _ _ rest).bind fun _ => .same _
      · split
        · exact contained_settles h around cursor latest rest
        · refine (component_settles h around cursor child).bind fun c => ?_
          exact (contained_settles h around _ _ rest).bind fun _ => .same _

end

theorem layer_settles (h : setting.Le more) (el : Element) (sceneStart : T) (place : String) :
    Settles late (layer setting el sceneStart place) (layer more el sceneStart place) := by
  unfold layer
  cases el.get? "id" with
  | none => exact .same _
  | some id =>
      refine (window_settles h el sceneStart).bind fun (start, explicit) => ?_
      exact (contained_settles h _ start none el.children).bind fun _ => .same _

/-! ## Scenes -/

theorem sceneContent_settles (h : setting.Le more) (start scale : T) (place : String) :
    ∀ children : List Element,
      (∀ id ∈ cueIdsOf children, id ∈ more.takenCues → late (.duplicateCue id)) →
      Settles late (sceneContent setting start scale place children)
        (sceneContent more start scale place children)
  | [], _ => .same _
  | child :: rest, hlate => by
      simp only [cueIdsOf_cons, List.mem_append] at hlate
      have ih : Settles late (sceneContent setting start scale place rest)
          (sceneContent more start scale place rest) :=
        sceneContent_settles h start scale place rest fun id hid => hlate id (.inr hid)
      rw [sceneContent, sceneContent]
      split
      · rename_i htag
        refine (cue_settles h child start scale place fun id hid => ?_).bind fun c => ?_
        · exact hlate id (.inl (by rw [if_pos htag, hid]; exact List.mem_singleton_self id))
        · exact ih.bind fun content => .same _
      · split
        · refine (pause_settles h child place).bind fun p => ?_
          exact ih.bind fun content => .same _
        · split
          · refine (layer_settles h child start place).bind fun l => ?_
            exact ih.bind fun content => .same _
          · split
            · refine (container_settles h (top start place) start child).bind fun _ => ?_
              exact ih.bind fun content => .same _
            · split
              · exact ih
              · refine (component_settles h (top start place) start child).bind fun c => ?_
                exact ih.bind fun content => .same _

/-- A start that is read off the scene before is the same when more is known, since that scene
is known whole. -/
theorem sceneStart_settles (h : setting.Le more) (el : Element) :
    Settles late (sceneStart setting el) (sceneStart more el) := by
  refine (time?_settles h el "start").bind fun start => ?_
  cases start with
  | some start => exact .same _
  | none =>
      dsimp only
      rw [h.isFirst]
      split
      · exact .same _
      · cases hp : setting.known.prevStart with
        | none => exact fun draft => .waiting _ _
        | some start =>
            have hp' : more.known.prevStart = some start := h.known.lookup .prevStart hp
            rw [hp', h.previous hp]
            exact .same _

theorem sceneEnd_settles (h : setting.Le more) (el : Element) (start scale : T) :
    Settles late (sceneEnd setting el start scale) (sceneEnd more el start scale) := by
  refine (time?_settles h el "end").bind fun stop => ?_
  cases stop with
  | some stop => exact .same _
  | none => exact durationEnd?_settles h el start scale

/-- An attempt at a scene comes out the same with more knowledge, unless it waits, or another
scene has taken the id of one of its cues meanwhile. -/
theorem scene_settles (h : setting.Le more) (id : String) (el : Element)
    (hlate : ∀ cue ∈ cueIdsOf el.children, cue ∈ more.takenCues → late (.duplicateCue cue)) :
    Settles late (scene setting id el) (scene more id el) := by
  refine (sceneStart_settles h el).bind fun start => ?_
  refine Settles.bind (.same _) fun _ => ?_
  rw [h.scale]
  refine (sceneEnd_settles h el start _).bind fun explicit => ?_
  refine Settles.bind (.same _) fun _ => ?_
  exact (sceneContent_settles h start _ _ el.children hlate).bind fun _ => .same _

theorem run_settled (h : setting.Le more) (id : String) (el : Element)
    (hlate : ∀ cue ∈ cueIdsOf el.children, cue ∈ more.takenCues → late (.duplicateCue cue)) :
    Settled late (run setting id el) (run more id el) := by
  have hs : ∀ m : Except AttemptStop (Scene T × Draft T),
      m.map (·.1) = m >>= fun r => .ok r.1 := fun m => by cases m <;> rfl
  unfold run
  rw [hs, hs]
  exact (scene_settles h id el hlate {}).bind fun _ => .same _

end Attempt

end Cuesheet
