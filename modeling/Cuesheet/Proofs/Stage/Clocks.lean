import Cuesheet.Stage.Clocks

/-!
# Clocks and their requests

What matters about a clock when frames are delivered is its *hand*: whether it runs, and the handle
of the frame it has asked for. Between two frames a manual stage only *shifts*: a clock asks for a
frame while it has none (`asked`), or gives its request up (`dropped`), or nothing of the kind
happens. `start_shift`, `stop_shift`, `seek_shift` and `renew_shift` say which of these the calls
are, and `Moves` are the ways in which a subscriber may change the stage while it is told the time.
-/

namespace Cuesheet

/-- Whether a clock runs, and the frame it has asked for. -/
def Timeline.hand {T S : Type} (tl : Timeline T S) : Bool × Option Nat := (tl.running, tl.handle)

namespace Stage

variable {T C W : Type}

/-- The stage that an outcome leaves behind. -/
def left {α : Type} : EStateM.Result (StageFault T) (Stage T C W) α → Stage T C W
  | .ok _ s => s
  | .error _ s => s

/-- The same outcome on another stage. -/
def leaving {α : Type} (r : EStateM.Result (StageFault T) (Stage T C W) α) (s : Stage T C W) :
    EStateM.Result (StageFault T) (Stage T C W) α :=
  match r with
  | .ok a _ => .ok a s
  | .error fault _ => .error fault s

theorem left_leaving {α : Type} (r : EStateM.Result (StageFault T) (Stage T C W) α)
    (s : Stage T C W) : left (leaving r s) = s := by
  cases r <;> rfl

/-- The stage that an action leaves behind, whether or not it fails. -/
def after {α : Type} (act : Action T C W α) (s : Stage T C W) : Stage T C W := left (act s)

/-- The requests that wait at a manual source. -/
def queue (s : Stage T C W) : FrameQueue (FrameTask C) :=
  match s.source with
  | .manual _ queue => queue
  | _ => {}

/-- The frames of the stage are delivered by hand. -/
def Manual (s : Stage T C W) : Prop := ∃ now queue, s.source = .manual now queue

/-- The hand of the clock of a group. -/
def hand? (s : Stage T C W) (group : String) : Option (Bool × Option Nat) :=
  (s.timeline? group).map Timeline.hand

/-- Who is told the time of the clock of a group. -/
def subscribers? (s : Stage T C W) (group : String) : Option (List (Subscriber C)) :=
  (s.timeline? group).map Timeline.subscribers

theorem queue_manual {s : Stage T C W} {now : T} {queue : FrameQueue (FrameTask C)}
    (h : s.source = .manual now queue) : s.queue = queue := by
  unfold Stage.queue
  rw [h]

theorem queue_congr {s s' : Stage T C W} (h : s'.source = s.source) : s'.queue = s.queue := by
  unfold queue
  rw [h]

theorem hand?_congr {s s' : Stage T C W} (h : s'.timelines = s.timelines) (group : String) :
    s'.hand? group = s.hand? group := by
  unfold hand? timeline?
  rw [h]

theorem subscribers?_congr {s s' : Stage T C W} (h : s'.timelines = s.timelines)
    (group : String) : s'.subscribers? group = s.subscribers? group := by
  unfold subscribers? timeline?
  rw [h]

/-! ## Clocks by group -/

theorem timeline?_id {s : Stage T C W} {group : String} {tl : Timeline T (Subscriber C)}
    (h : s.timeline? group = some tl) : tl.id = group := by
  have hid : (tl.id == group) = true :=
    List.find?_some (p := fun tl : Timeline T (Subscriber C) => tl.id == group) h
  exact eq_of_beq hid

theorem timeline?_modifyTimeline (s : Stage T C W) {group : String}
    {f : Timeline T (Subscriber C) → Timeline T (Subscriber C)}
    (hf : ∀ tl, tl.id = group → (f tl).id = group) (other : String) :
    (s.modifyTimeline group f).timeline? other =
      if other = group then (s.timeline? group).map f else s.timeline? other := by
  have hid : ∀ tl : Timeline T (Subscriber C),
      (if tl.id == group then f tl else tl).id = tl.id := by
    intro tl
    split
    · rename_i h
      rw [hf tl (eq_of_beq h), eq_of_beq h]
    · rfl
  have hfind : (s.modifyTimeline group f).timeline? other =
      (s.timeline? other).map fun tl => if tl.id == group then f tl else tl := by
    unfold timeline? modifyTimeline
    rw [List.find?_map]
    congr 2
    funext tl
    exact congrArg (· == other) (hid tl)
  rw [hfind]
  split
  · rename_i h
    subst h
    cases htl : s.timeline? other with
    | none => rfl
    | some tl => rw [Option.map_some, timeline?_id htl, if_pos (beq_self_eq_true _)]; rfl
  · rename_i h
    cases htl : s.timeline? other with
    | none => rfl
    | some tl =>
        rw [Option.map_some, if_neg]
        rw [timeline?_id htl]
        exact fun he => h (eq_of_beq he)

theorem modifyTimeline_modifyTimeline (s : Stage T C W) {group : String}
    {f g : Timeline T (Subscriber C) → Timeline T (Subscriber C)}
    (hf : ∀ tl, tl.id = group → (f tl).id = group) :
    (s.modifyTimeline group f).modifyTimeline group g =
      s.modifyTimeline group fun tl => g (f tl) := by
  unfold modifyTimeline
  rw [List.map_map]
  congr 2
  funext tl
  by_cases h : (tl.id == group) = true
  · have hid : ((f tl).id == group) = true := by
      rw [hf tl (eq_of_beq h)]
      exact beq_self_eq_true group
    simp only [Function.comp, if_pos h, if_pos hid]
  · simp only [Function.comp, if_neg h]

/-- What becomes of the hands when one clock is changed. -/
theorem hand?_modifyTimeline {s : Stage T C W} {group : String}
    {f : Timeline T (Subscriber C) → Timeline T (Subscriber C)} {tl : Timeline T (Subscriber C)}
    (htl : s.timeline? group = some tl) (hf : ∀ tl, tl.id = group → (f tl).id = group)
    (other : String) :
    (s.modifyTimeline group f).hand? other =
      if other = group then some (f tl).hand else s.hand? other := by
  unfold hand?
  rw [timeline?_modifyTimeline s hf, htl]
  split <;> rfl

/-- What a change of a clock leaves alone stays the same for every clock. -/
theorem map_modifyTimeline {α : Type} (s : Stage T C W) {group : String}
    {f : Timeline T (Subscriber C) → Timeline T (Subscriber C)}
    (hf : ∀ tl, tl.id = group → (f tl).id = group) {p : Timeline T (Subscriber C) → α}
    (hp : ∀ tl, s.timeline? group = some tl → p (f tl) = p tl) (other : String) :
    ((s.modifyTimeline group f).timeline? other).map p = (s.timeline? other).map p := by
  rw [timeline?_modifyTimeline s hf]
  split
  · rename_i h
    subst h
    cases htl : s.timeline? other with
    | none => rfl
    | some tl => exact congrArg some (hp tl htl)
  · rfl

theorem hand?_of_timeline? {s : Stage T C W} {group : String} {tl : Timeline T (Subscriber C)}
    (h : s.timeline? group = some tl) : s.hand? group = some (tl.running, tl.handle) := by
  unfold hand?
  rw [h]; rfl

/-! ## Shifts -/

/-- What a shift does to the requests and the hands. -/
inductive Change (s s' : Stage T C W) : Prop
  | none (queue : s'.queue = s.queue) (hands : ∀ group, s'.hand? group = s.hand? group)
  | asked {group : String} {running : Bool} {handle : Option Nat}
      (hand : s.hand? group = some (running, handle)) (free : running = false ∨ handle = none)
      (queue : s'.queue = s.queue.request (.tick group))
      (hands : ∀ other, s'.hand? other =
        if other = group then some (true, some s.queue.nextHandle) else s.hand? other)
  | dropped {group : String} {running : Bool} {handle : Option Nat}
      (hand : s.hand? group = some (running, handle))
      (queue : s'.queue = handle.elim s.queue s.queue.cancel)
      (hands : ∀ other, s'.hand? other =
        if other = group then some (false, none) else s.hand? other)

/-- A clock asks for a frame, and runs. -/
structure Asks (group : String) (s s' : Stage T C W) : Prop where
  manual : s'.Manual
  outside : s'.outside = s.outside
  now : s'.source.now? = s.source.now?
  subscribers : ∀ other, s'.subscribers? other = s.subscribers? other
  queue : s'.queue = s.queue.request (.tick group)
  hands : ∀ other, s'.hand? other =
    if other = group then some (true, some s.queue.nextHandle) else s.hand? other

/-- One step of the clocks on a stage between two frames. -/
structure Shift (s s' : Stage T C W) : Prop where
  manual : s.Manual → s'.Manual
  now : s'.source.now? = s.source.now?
  subscribers : ∀ group, s'.subscribers? group = s.subscribers? group
  change : s.Change s'

namespace Shift

theorem elsewhere {s s' : Stage T C W} (source : s'.source = s.source)
    (timelines : s'.timelines = s.timelines) : s.Shift s' :=
  ⟨fun ⟨now, queue, h⟩ => ⟨now, queue, source.trans h⟩, by rw [source],
    subscribers?_congr timelines, .none (queue_congr source) (hand?_congr timelines)⟩

theorem refl (s : Stage T C W) : s.Shift s := elsewhere rfl rfl

/-- A change of a clock that leaves its hand and its subscribers alone. -/
theorem modifyTimeline (s : Stage T C W) {group : String}
    {f : Timeline T (Subscriber C) → Timeline T (Subscriber C)}
    (hf : ∀ tl, tl.id = group → (f tl).id = group)
    (hhand : ∀ tl, s.timeline? group = some tl → (f tl).hand = tl.hand)
    (hsubs : ∀ tl, s.timeline? group = some tl → (f tl).subscribers = tl.subscribers) :
    s.Shift (s.modifyTimeline group f) :=
  ⟨id, rfl, map_modifyTimeline s hf hsubs, .none rfl (map_modifyTimeline s hf hhand)⟩

end Shift

/-! ## Calls -/

variable [TimeScalar T]

theorem request_manual {s : Stage T C W} {now : T} {queue : FrameQueue (FrameTask C)}
    (h : s.source = .manual now queue) (task : FrameTask C) :
    request task s =
      .ok queue.nextHandle { s with source := .manual now (queue.request task) } := by
  cases s
  cases h
  rfl

omit [TimeScalar T] in
theorem asks_modifyTimeline {s : Stage T C W} {group : String} {now : T}
    {queue : FrameQueue (FrameTask C)} {tl : Timeline T (Subscriber C)}
    {f : Timeline T (Subscriber C) → Timeline T (Subscriber C)}
    (hsource : s.source = .manual now queue) (htl : s.timeline? group = some tl)
    (hf : ∀ tl, tl.id = group → (f tl).id = group)
    (hhand : (f tl).hand = (true, some queue.nextHandle))
    (hsubs : (f tl).subscribers = tl.subscribers) :
    Asks group s
      (modifyTimeline { s with source := .manual now (queue.request (.tick group)) } group f) := by
  have htl' : timeline? { s with source := .manual now (queue.request (.tick group)) } group =
      some tl := htl
  have hqueue := queue_manual hsource
  refine ⟨⟨now, _, rfl⟩, rfl, by rw [hsource]; rfl, ?_, by rw [hqueue]; rfl, fun other => ?_⟩
  · refine map_modifyTimeline _ hf fun tl' h => ?_
    obtain rfl := Option.some.inj (htl'.symm.trans h)
    exact hsubs
  · rw [hand?_modifyTimeline htl' hf, hhand, hqueue]; rfl

omit [TimeScalar T] in
/-- A clock that has no frame may ask for one. -/
theorem Asks.shift {s s' : Stage T C W} {group : String} {running : Bool} {handle : Option Nat}
    (h : Asks group s s') (hand : s.hand? group = some (running, handle))
    (free : running = false ∨ handle = none) : s.Shift s' :=
  ⟨fun _ => h.manual, h.now, h.subscribers, .asked hand free h.queue h.hands⟩

omit [TimeScalar T] in
theorem get_bind {α : Type} (next : Stage T C W → Action T C W α) (s : Stage T C W) :
    (get >>= next) s = next s s := rfl

omit [TimeScalar T] in
theorem bind_ok {α β : Type} {act : Action T C W α} {s s' : Stage T C W} {a : α}
    (h : act s = .ok a s') (next : α → Action T C W β) : (act >>= next) s = next a s' := by
  simp only [bind, EStateM.bind, h]

omit [TimeScalar T] in
theorem bind_error {α β : Type} {act : Action T C W α} {s s' : Stage T C W}
    {fault : StageFault T} (h : act s = .error fault s') (next : α → Action T C W β) :
    (act >>= next) s = .error fault s' := by
  simp only [bind, EStateM.bind, h]

omit [TimeScalar T] in
theorem lookup_none {α : Type} {s : Stage T C W} {group : String}
    (h : s.timeline? group = none) (absent : Action T C W α)
    (act : Timeline T (Subscriber C) → Action T C W α) :
    (do
      match (← get).timeline? group with
      | none => absent
      | some tl => act tl : Action T C W α) s = absent s := by
  show (match s.timeline? group with
    | none => absent
    | some tl => act tl : Action T C W α) s = absent s
  rw [h]

omit [TimeScalar T] in
theorem lookup_some {α : Type} {s : Stage T C W} {group : String}
    {tl : Timeline T (Subscriber C)} (h : s.timeline? group = some tl) (absent : Action T C W α)
    (act : Timeline T (Subscriber C) → Action T C W α) :
    (do
      match (← get).timeline? group with
      | none => absent
      | some tl => act tl : Action T C W α) s = act tl s := by
  show (match s.timeline? group with
    | none => absent
    | some tl => act tl : Action T C W α) s = act tl s
  rw [h]

theorem start_shift {s : Stage T C W} (h : s.Manual) (group : String) :
    ∃ s', start group s = .ok () s' ∧ s.Shift s' := by
  obtain ⟨now, queue, hsource⟩ := h
  cases htl : s.timeline? group with
  | none => exact ⟨s, lookup_none htl .., .refl s⟩
  | some tl =>
      cases hr : tl.running with
      | true =>
          refine ⟨s, (lookup_some htl _ _).trans ?_, .refl s⟩
          rw [if_pos hr]; rfl
      | false =>
          have hasks := asks_modifyTimeline hsource htl
            (f := fun tl => { tl with
              running := true, lastTimestamp := none, handle := some queue.nextHandle })
            (fun tl h => h) rfl rfl
          refine ⟨_, (lookup_some htl _ _).trans ?_,
            hasks.shift (hand?_of_timeline? htl) (.inl hr)⟩
          rw [if_neg (ne_true_of_eq_false hr)]
          have hrequest := request_manual (s := s.modifyTimeline group fun tl =>
            { tl with running := true, lastTimestamp := none }) hsource (.tick group)
          refine (bind_ok rfl _).trans ((bind_ok hrequest _).trans ?_)
          exact congrArg (EStateM.Result.ok ()) (modifyTimeline_modifyTimeline
            { s with source := .manual now (queue.request (.tick group)) } fun tl h => h)

/-- A clock that runs asks for a frame if it has none; nothing else happens. -/
theorem renew_asks {s : Stage T C W} (h : s.Manual) (group : String) :
    ∃ s', renew group s = .ok () s' ∧
      (s' = s ∧ s.hand? group ≠ some (true, none) ∨
        s.hand? group = some (true, none) ∧ Asks group s s') := by
  obtain ⟨now, queue, hsource⟩ := h
  cases htl : s.timeline? group with
  | none =>
      refine ⟨s, lookup_none htl .., .inl ⟨rfl, ?_⟩⟩
      unfold hand?
      rw [htl]
      exact fun h => nomatch h
  | some tl =>
      have hhand := hand?_of_timeline? htl
      cases hr : tl.running && tl.handle.isNone with
      | false =>
          refine ⟨s, (lookup_some htl _ _).trans ?_, .inl ⟨rfl, ?_⟩⟩
          · rw [if_neg (ne_true_of_eq_false hr)]; rfl
          · rw [hhand]
            intro h
            obtain ⟨hrun, hnone⟩ := Prod.mk.inj (Option.some.inj h)
            rw [hrun, hnone] at hr
            cases hr
      | true =>
          obtain ⟨hrun, hnone⟩ := (Bool.and_eq_true _ _).mp hr
          rw [hrun, Option.isNone_iff_eq_none.mp hnone] at hhand
          have hasks := asks_modifyTimeline hsource htl
            (f := fun tl => { tl with handle := some queue.nextHandle })
            (fun tl h => h) (by rw [Timeline.hand, hrun]) rfl
          refine ⟨_, (lookup_some htl _ _).trans ?_, .inr ⟨hhand, hasks⟩⟩
          rw [if_pos hr]
          exact bind_ok (request_manual hsource (.tick group)) _

theorem renew_shift {s s' : Stage T C W} (h : s.Manual) {group : String}
    (hrenew : renew group s = .ok () s') : s.Shift s' := by
  obtain ⟨s₁, hrenew₁, hcases⟩ := renew_asks h group
  rw [hrenew] at hrenew₁
  cases hrenew₁
  rcases hcases with ⟨rfl, -⟩ | ⟨hhand, hasks⟩
  · exact .refl s'
  · exact hasks.shift hhand (.inr rfl)

omit [TimeScalar T] in
theorem stop_shift (s : Stage T C W) (group : String) :
    ∃ s', stop group s = .ok () s' ∧ s.Shift s' := by
  cases htl : s.timeline? group with
  | none => exact ⟨s, lookup_none htl .., .refl s⟩
  | some tl =>
      have hdropped : s.Shift (modifyTimeline
          { s with source := tl.handle.elim s.source s.source.cancel } group .halted) := by
        refine ⟨?_, ?_, ?_, ?_⟩
        · rintro ⟨now, queue, hsource⟩
          refine ⟨now, tl.handle.elim queue queue.cancel, ?_⟩
          show tl.handle.elim s.source s.source.cancel = _
          rw [hsource]
          cases tl.handle <;> rfl
        · show FrameSource.now? (tl.handle.elim s.source s.source.cancel) = s.source.now?
          cases tl.handle <;> cases s.source <;> rfl
        · exact map_modifyTimeline (f := .halted) (p := Timeline.subscribers)
            { s with source := _ } (fun tl h => h) fun tl h => rfl
        · refine .dropped (hand?_of_timeline? htl) ?_
            (hand?_modifyTimeline (s := { s with source := _ }) htl fun tl h => h)
          show queue { s with source := tl.handle.elim s.source s.source.cancel } = _
          unfold queue
          cases tl.handle <;> cases s.source <;> rfl
      refine ⟨_, (lookup_some htl _ _).trans ?_, hdropped⟩
      cases tl.handle <;> rfl

/-- What setting a clock that is there comes to. -/
theorem seek_eq {s : Stage T C W} {group : String} {tl : Timeline T (Subscriber C)}
    (htl : s.timeline? group = some tl) (time : T) :
    seek group time s =
      if TimeScalar.lt time TimeScalar.zero then .error (.clock (.seekBelowZero time)) s
      else
        match Timeline.frameNumber { tl with time } with
        | .error fault =>
          .error (.clock (.arith fault)) (s.modifyTimeline group fun tl => { tl with time })
        | .ok frame => .ok () (s.modifyTimeline group fun tl => { tl with time, frame }) := by
  refine (lookup_some htl _ _).trans ?_
  split
  · rfl
  · refine (bind_ok rfl _).trans ?_
    cases Timeline.frameNumber { tl with time } with
    | error fault => rfl
    | ok frame =>
        refine (bind_ok rfl _).trans ?_
        exact congrArg (EStateM.Result.ok ()) (modifyTimeline_modifyTimeline s fun tl h => h)

theorem seek_shift (s : Stage T C W) (group : String) (time : T) :
    s.Shift (after (seek group time) s) := by
  cases htl : s.timeline? group with
  | none =>
      have hnone : seek group time s = .ok () s := lookup_none htl ..
      rw [after, hnone]
      exact .refl s
  | some tl =>
      rw [after, seek_eq htl]
      split
      · exact .refl s
      · cases Timeline.frameNumber { tl with time } <;>
          exact .modifyTimeline s (fun tl h => h) (fun tl h => rfl) fun tl h => rfl

/-! ## What subscribers may do -/

/-- The ways in which the stage may change while a subscriber is told the time: it may start, stop
and seek clocks, and do what has nothing to do with clocks. -/
inductive Moves (s : Stage T C W) : Stage T C W → Prop
  | refl : Moves s s
  | elsewhere {s₁ s₂ : Stage T C W} (moves : Moves s s₁) (source : s₂.source = s₁.source)
      (timelines : s₂.timelines = s₁.timelines) : Moves s s₂
  | start {s₁ : Stage T C W} (moves : Moves s s₁) (group : String) :
      Moves s (after (start group) s₁)
  | stop {s₁ : Stage T C W} (moves : Moves s s₁) (group : String) : Moves s (after (stop group) s₁)
  | seek {s₁ : Stage T C W} (moves : Moves s s₁) (group : String) (time : T) :
      Moves s (after (seek group time) s₁)

/-- What every shift keeps is kept by whatever a subscriber does. -/
theorem Moves.keeps {s s' : Stage T C W} (h : s.Moves s') {I : Stage T C W → Prop}
    (hmanual : ∀ s, I s → s.Manual) (hshift : ∀ s s', I s → s.Shift s' → I s') (hs : I s) :
    I s' := by
  induction h with
  | refl => exact hs
  | elsewhere _ source timelines ih => exact hshift _ _ ih (.elsewhere source timelines)
  | @start s₁ _ group ih =>
      obtain ⟨s₂, hstart, h⟩ := start_shift (hmanual _ ih) group
      rw [after, hstart]
      exact hshift _ _ ih h
  | @stop s₁ _ group ih =>
      obtain ⟨s₂, hstop, h⟩ := stop_shift s₁ group
      rw [after, hstop]
      exact hshift _ _ ih h
  | @seek s₁ _ group time ih => exact hshift _ _ ih (seek_shift s₁ group time)

theorem Moves.trans {s s₁ s₂ : Stage T C W} (h : s.Moves s₁) (h' : s₁.Moves s₂) : s.Moves s₂ := by
  induction h' with
  | refl => exact h
  | elsewhere _ source timelines ih => exact ih.elsewhere source timelines
  | start _ group ih => exact ih.start group
  | stop _ group ih => exact ih.stop group
  | seek _ group time ih => exact ih.seek group time

end Stage

end Cuesheet
