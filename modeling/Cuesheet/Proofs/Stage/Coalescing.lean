import Cuesheet.Proofs.Stage.Batches
import Cuesheet.Proofs.Stage.Noting

/-!
# Edits are carried over once a frame, and none is lost

A document is edited and frames are delivered, in any order, and whoever takes the document over or
is handed its text may edit it again (`Attends`, `Reflecting`). What a reflector has noted goes
through a flush in two halves: the document is taken over (`Carried.takeOver`), and then its text
is handed over (`Halfway.handText`), which fails if it cannot be written. Either way everything that
is noted will be carried over (`Settled`), so that a frame keeps that (`serve_reflects`) and so does
a whole run (`Reflecting.settled`). Whether an edit is lost is told by whether a frame failed since
the text was handed over last (`edits_coalesce_iff`): the text is not wanted any more by then, and
nobody asks for another frame (`retitled_unwritten`).
-/

namespace Cuesheet.Stage

open ReflectorEvent

variable {T C W : Type} [TimeScalar T] {react : React T C (W × List ReflectorEvent)}
  {key ahead flushes : Nat} {link : Link C} {E : Stage T C (W × List ReflectorEvent) → Prop}
  {s s' : Stage T C (W × List ReflectorEvent)}

/-- Nobody fails, and everybody but a reflector only edits: who takes the document over and who is
handed its text, after they have written down that they were called, and whatever else asks for a
frame. They may rely on something that a reflector leaves alone. -/
structure Attends (react : React T C (W × List ReflectorEvent)) (key : Nat) (link : Link C)
    (E : Stage T C (W × List ReflectorEvent) → Prop) : Prop where
  stable : ∀ s source registry, E s → E { s with source, registry }
  reflector : ∀ s f, E s → E (s.modifyReflector key f)
  failed : ∀ s, E s → E (s.recorded .failed)
  rebinds : ∀ s, Tied key link s → E s →
    ∃ s', react link.rebinding (.changed link.document) s = .ok () s' ∧
      Relation.ReflTransGen (Editing key) (s.recorded .rebound) s' ∧ E s'
  writes : ∀ c, link.onText = some c → ∀ text s, Tied key link s → E s →
    ∃ s', react c (.written text) s = .ok () s' ∧
      Relation.ReflTransGen (Editing key) (s.recorded (.written text)) s' ∧ E s'
  others : ∀ task, task ≠ .flush key → ∀ time s, Tied key link s → E s →
    ∃ s', runTask react task time s = .ok () s' ∧ Relation.ReflTransGen (Editing key) s s' ∧ E s'

/-- Everything that is noted will be carried over. -/
abbrev Settled (key ahead : Nat) (link : Link C) (flushes : Nat) :
    Stage T C (W × List ReflectorEvent) → Prop :=
  Reflects key ahead (Carried link flushes)

/-- A text could not be written, and the frame that is being delivered fails. -/
structure Fails (key ahead : Nat) (link : Link C) (flushes : Nat)
    (s : Stage T C (W × List ReflectorEvent)) : Prop where
  reflects : Reflects key ahead (fun r events => Carried link flushes r (.failed :: events)) s
  unwritable : ∃ doc, s.document? link.document = some doc ∧ ¬ doc.Writable

omit [TimeScalar T] in
/-- A reflector asks for one frame at most. -/
theorem Reflects.requested_le {P : Reflector C → List ReflectorEvent → Prop}
    (hs : Reflects key ahead P s) : ahead + s.waitingFlushes key ≤ 1 := by
  obtain ⟨r, -, -, hwaiting⟩ := hs.reflector
  rw [hwaiting]
  cases r.handle.isSome <;> decide

/-! ## Flushes -/

omit [TimeScalar T] in
theorem withReflector_some {s : Stage T C W} {r : Reflector C} (h : s.reflectors[key]? = some r)
    (act : Reflector C → Action T C W Unit) : withReflector key act s = act r s := by
  unfold withReflector
  rw [get_bind, h]

omit [TimeScalar T] in
theorem reflector_modifyReflector {s : Stage T C W} {r : Reflector C}
    (h : s.reflectors[key]? = some r) (f : Reflector C → Reflector C) :
    (s.modifyReflector key f).reflectors[key]? = some (f r) := by
  unfold modifyReflector
  rw [List.getElem?_modify_eq, h]
  rfl

theorem carried_kept : KeptByNotes (Carried link flushes) :=
  fun _ _ handle h => h.noting handle

theorem halfway_kept : KeptByNotes (Halfway link flushes) :=
  fun _ _ handle h => h.noting handle

omit [TimeScalar T] in
theorem Tied.unrecorded {event : ReflectorEvent} (h : Tied key link (s.recorded event)) :
    Tied key link s := ⟨h.manual, h.reflector⟩

theorem flush_missing {react : React T C W} {s : Stage T C W} (h : s.reflectors[key]? = none) :
    flush react key s = .ok () s := by
  have hsame : ∀ f, s.modifyReflector key f = s := fun f => by
    rw [modifyReflector, List.modify_eq_self (List.getElem?_eq_none_iff.mp h)]
  have hnobody : ∀ act : Reflector C → Action T C W Unit, withReflector key act s = .ok () s :=
    fun act => by
      rw [withReflector, get_bind, h]
      rfl
  unfold flush
  rw [modify_bind, hsame, bind_ok (hnobody _), hnobody]

/-- The second half of a flush. -/
def handText (react : React T C W) (key : Nat) : Action T C W Unit :=
  withReflector key fun r =>
    match r.onText with
    | none => pure ()
    | some c =>
      if r.pendingText then do
        modify fun s => s.modifyReflector key fun r => { r with pendingText := false }
        let text ← write r.document
        react c (.written text)
      else pure ()

/-- The stage on which a flush writes the document. -/
def handing (s : Stage T C W) (key : Nat) : Stage T C W :=
  s.modifyReflector key fun r => { r with pendingText := false }

omit [TimeScalar T] in
/-- The text is wanted no more when it begins to be handed over. -/
theorem Reflects.handed (hs : Reflects key ahead (Halfway link flushes) s)
    (registry : Xml.Registry) (text : String) :
    Settled key ahead link flushes
      (({ s.handing key with registry } : Stage T C _).recorded (.written text)) := by
  obtain ⟨r, hr, hhalfway, hwaiting⟩ := hs.reflector
  exact ⟨hs.manual, _, reflector_modifyReflector hr _, hhalfway.handText text, hwaiting⟩

/-- The text is handed over if it is wanted, unless it cannot be written. -/
theorem handText_reflects (hattends : Attends react key link E)
    (hs : Reflects key ahead (Halfway link flushes) s) (hE : E s) :
    (∃ s', handText react key s = .ok () s' ∧ Settled key ahead link flushes s' ∧ E s') ∨
      ∃ fault s', handText react key s = .error fault s' ∧ Fails key ahead link flushes s' ∧
        E s' := by
  obtain ⟨r, hr, hhalfway, hwaiting⟩ := hs.reflector
  have hidle : r.pendingText = false → Settled key ahead link flushes s :=
    fun hidle => ⟨hs.manual, r, hr, hhalfway.rest hidle, hwaiting⟩
  have hE₁ : ∀ registry, E { s.handing key with registry } :=
    fun registry => hattends.stable _ s.source registry (hattends.reflector s _ hE)
  unfold handText
  rw [withReflector_some hr, hhalfway.onText]
  cases honText : link.onText with
  | none => exact .inl ⟨s, rfl, hidle (hhalfway.silent honText), hE⟩
  | some c =>
      dsimp only
      cases hwanted : r.pendingText with
      | false => exact .inl ⟨s, rfl, hidle hwanted, hE⟩
      | true =>
          rw [if_pos rfl, modify_bind]
          obtain ⟨registry, ⟨⟨text, hwrite⟩, -⟩ | ⟨⟨fault, hwrite⟩, doc, hdoc, hunwritable⟩⟩ :=
            write_spec r.document (s.handing key)
          · have hhanded := hs.handed registry text
            obtain ⟨s₂, hrun, hediting, hE₂⟩ := hattends.writes c honText text
              { s.handing key with registry } (hhanded.tied fun _ _ h => h.document).unrecorded
              (hE₁ registry)
            exact .inl ⟨s₂, (bind_ok hwrite _).trans hrun,
              hhanded.edits carried_kept hediting, hE₂⟩
          · have hfails : Reflects key ahead
                (fun r events => Carried link flushes r (.failed :: events))
                { s.handing key with registry } :=
              ⟨hs.manual, _, reflector_modifyReflector hr _, hhalfway.fail hwanted, hwaiting⟩
            rw [hhalfway.document] at hdoc
            exact .inr ⟨fault, { s.handing key with registry }, bind_error hwrite _,
              ⟨hfails, doc, hdoc, hunwritable⟩, hE₁ registry⟩

/-- The stage on which a flush hands the document over. -/
def flushing (s : Stage T C W) (key : Nat) : Stage T C W :=
  (s.modifyReflector key fun r =>
    { r with handle := none, flushCount := r.flushCount + 1 }).modifyReflector key fun r =>
      { r with pendingRebind := false }

omit [TimeScalar T] in
theorem reflector_flushing {s : Stage T C W} {r : Reflector C} (h : s.reflectors[key]? = some r) :
    (s.flushing key).reflectors[key]? =
      some { r with handle := none, flushCount := r.flushCount + 1, pendingRebind := false } :=
  reflector_modifyReflector (reflector_modifyReflector h _) _

omit [TimeScalar T] in
/-- Whose flush is ahead holds a handle. -/
theorem Reflects.requested {P : Reflector C → List ReflectorEvent → Prop} {r : Reflector C}
    (hs : Reflects key (ahead + 1) P s) (hr : s.reflectors[key]? = some r) :
    r.handle.isSome = true := by
  obtain ⟨r', hr', -, hwaiting⟩ := hs.reflector
  obtain rfl := Option.some.inj (hr.symm.trans hr')
  cases hhandle : r.handle.isSome with
  | true => rfl
  | false =>
      rw [hhandle, Bool.toNat_false] at hwaiting
      omega

omit [TimeScalar T] in
/-- Nothing is noted when the document begins to be taken over, and nothing more requested. -/
theorem Reflects.takenOver (hs : Settled key (ahead + 1) link flushes s) :
    Reflects key ahead (Halfway link (flushes + 1)) ((s.flushing key).recorded .rebound) := by
  obtain ⟨r, hr, hcarried, hwaiting⟩ := hs.reflector
  rw [hs.requested hr, Bool.toNat_true] at hwaiting
  have hnone : ahead + s.waitingFlushes key = 0 := by omega
  exact ⟨hs.manual, _, reflector_flushing hr, hcarried.takeOver, hnone⟩

/-- Whoever takes the document over leaves it with the first half of a flush done. -/
theorem Attends.takesOver (hattends : Attends react key link E)
    (hs : Settled key (ahead + 1) link flushes s) (hE : E s) :
    ∃ s₁, react link.rebinding (.changed link.document) (s.flushing key) = .ok () s₁ ∧
      Reflects key ahead (Halfway link (flushes + 1)) s₁ ∧ E s₁ := by
  have htaken := hs.takenOver
  have hE' : E (s.flushing key) := hattends.reflector _ _ (hattends.reflector s _ hE)
  obtain ⟨s₁, hrun, hediting, hE₁⟩ := hattends.rebinds (s.flushing key)
    (htaken.tied fun _ _ h => h.document).unrecorded hE'
  exact ⟨s₁, hrun, htaken.edits halfway_kept hediting, hE₁⟩

/-- A flush hands the document over once, and the text if it is wanted. -/
theorem flush_reflects (hattends : Attends react key link E)
    (hs : Settled key (ahead + 1) link flushes s) (hE : E s) :
    (∃ s', flush react key s = .ok () s' ∧ Settled key ahead link (flushes + 1) s' ∧ E s') ∨
      ∃ fault s', flush react key s = .error fault s' ∧ Fails key ahead link (flushes + 1) s' ∧
        E s' := by
  obtain ⟨r, hr, hcarried, -⟩ := hs.reflector
  have hhandle := hs.requested hr
  obtain ⟨s₁, hrun, hs₁, hE₁⟩ := hattends.takesOver hs hE
  have hflush : flush react key s = handText react key s₁ := by
    refine (modify_bind _ _ s).trans (bind_ok (a := ()) ?_ _)
    refine (withReflector_some (reflector_modifyReflector hr _) _).trans ?_
    rw [if_pos (hcarried.handle.symm.trans hhandle), modify_bind]
    dsimp only
    rw [hcarried.rebinding, hcarried.document]
    exact hrun
  rw [hflush]
  exact handText_reflects hattends hs₁ hE₁

/-- The stages that a flush passes: while the document is taken over, and while its text is handed
over. -/
inductive Flushing (react : React T C (W × List ReflectorEvent)) (key : Nat) (link : Link C)
    (s : Stage T C (W × List ReflectorEvent)) : Stage T C (W × List ReflectorEvent) → Prop
  | rebinding {s' : Stage T C (W × List ReflectorEvent)}
      (hediting : Relation.ReflTransGen (Editing key) ((s.flushing key).recorded .rebound) s') :
      Flushing react key link s s'
  | writing {s₁ s' : Stage T C (W × List ReflectorEvent)} {registry : Xml.Registry}
      {text : String}
      (hrun : react link.rebinding (.changed link.document) (s.flushing key) = .ok () s₁)
      (hediting : Relation.ReflTransGen (Editing key)
        (({ s₁.handing key with registry } : Stage T C _).recorded (.written text)) s') :
      Flushing react key link s s'

/-- While a flush is running, one more is requested at most. -/
theorem Flushing.requested_le (hattends : Attends react key link E)
    (hs : Settled key (ahead + 1) link flushes s) (hE : E s)
    (hflushing : Flushing react key link s s') : ahead + s'.waitingFlushes key ≤ 1 := by
  cases hflushing with
  | rebinding hediting => exact (hs.takenOver.edits halfway_kept hediting).requested_le
  | @writing _ _ registry text hrun hediting =>
      obtain ⟨s₁, hrun₁, hs₁, -⟩ := hattends.takesOver hs hE
      cases hrun.symm.trans hrun₁
      exact ((hs₁.handed registry text).edits carried_kept hediting).requested_le

/-! ## Frames -/

/-- A frame serves what was requested of it, up to a text that cannot be written. -/
theorem serve_reflects (hattends : Attends react key link E) :
    ∀ {tasks : List (FrameTask C)} {flushes : Nat} {s : Stage T C (W × List ReflectorEvent)},
      Settled key (ahead + tasks.countP (FrameTask.isFlush key)) link flushes s → E s →
      (∃ s', serve react tasks s = .ok () s' ∧
        Settled key ahead link (flushes + tasks.countP (FrameTask.isFlush key)) s' ∧ E s') ∨
      ∃ fault s', serve react tasks s = .error fault s' ∧
        Fails key ahead link (flushes + tasks.countP (FrameTask.isFlush key)) s' ∧ E s'
  | [], flushes, s, hs, hE => .inl ⟨s, rfl, hs, hE⟩
  | task :: rest, flushes, s, hs, hE => by
      obtain ⟨now, queue, hsource⟩ := hs.manual
      have hnow : s.source.now? = some now := by rw [hsource]; rfl
      rw [serve_cons hnow]
      by_cases hflush : task.isFlush key = true
      · rw [List.countP_cons_of_pos hflush] at hs ⊢
        obtain rfl := FrameTask.isFlush_iff.mp hflush
        rcases flush_reflects hattends hs hE with ⟨s₁, hrun, hs₁, hE₁⟩ | ⟨fault, s₁, hrun, hs₁, hE₁⟩
        · have hrest := serve_reflects hattends hs₁ hE₁
          rw [Nat.add_assoc, Nat.add_comm 1] at hrest
          rw [runTask, bind_ok hrun]
          exact hrest
        · have hlast : rest.countP (FrameTask.isFlush key) = 0 := by
            have := hs.requested_le
            omega
          rw [hlast] at hs₁ ⊢
          exact .inr ⟨fault, s₁, bind_error hrun _, hs₁, hE₁⟩
      · rw [List.countP_cons_of_neg hflush] at hs ⊢
        obtain ⟨s₁, hrun, hediting, hE₁⟩ := hattends.others task
          (fun h => hflush (FrameTask.isFlush_iff.mpr h)) now s
          (hs.tied fun _ _ h => h.document) hE
        rw [bind_ok hrun]
        exact serve_reflects hattends (hs.edits carried_kept hediting) hE₁

/-- Serving what comes first in a frame leaves the rest ahead. -/
theorem served_settled (hattends : Attends react key link E)
    {served rest : List (FrameTask C)}
    (hs : Settled key ((served ++ rest).countP (FrameTask.isFlush key)) link flushes s) (hE : E s)
    (hserve : serve react served s = .ok () s') :
    ∃ flushes, Settled key (rest.countP (FrameTask.isFlush key)) link flushes s' ∧ E s' := by
  rw [List.countP_append, Nat.add_comm] at hs
  rcases serve_reflects hattends hs hE with ⟨s₁, hrun, hs₁, hE₁⟩ | ⟨fault, s₁, hrun, -⟩
  · cases hserve.symm.trans hrun
    exact ⟨_, hs₁, hE₁⟩
  · cases hserve.symm.trans hrun

omit [TimeScalar T] in
theorem Settled.recorded (hs : Fails key ahead link flushes s) :
    Settled key ahead link flushes (s.recorded .failed) :=
  ⟨hs.reflects.manual, hs.reflects.reflector⟩

/-- What waited for a frame is ahead in it. -/
theorem opened_settled {timestamp : Option T} {frame : Opened T C (W × List ReflectorEvent)}
    (hattends : Attends react key link E) (hs : Settled key 0 link flushes s) (hE : E s)
    (hopen : s.opened? timestamp = some frame) :
    Settled key (frame.tasks.countP (FrameTask.isFlush key)) link flushes frame.stage ∧
      E frame.stage := by
  obtain ⟨now, queue, hsource⟩ := hs.manual
  obtain ⟨r, hr, hcarried, hwaiting⟩ := hs.reflector
  rw [Nat.zero_add, waitingFlushes_manual hsource] at hwaiting
  unfold opened? at hopen
  rw [hsource] at hopen
  dsimp only at hopen
  split at hopen
  · cases hopen
  · cases hopen
    exact ⟨⟨⟨_, _, rfl⟩, r, hr, hcarried, hwaiting⟩,
      hattends.stable s _ s.registry hE⟩

/-! ## Runs -/

variable [DecidableEq C]

/-- Delivers a frame and writes down if that fails. -/
def deliver (react : React T C (W × List ReflectorEvent)) (timestamp : Option T) :
    Action T C (W × List ReflectorEvent) Unit := fun s =>
  match obey react (.step timestamp) s with
  | .ok _ s' => .ok () s'
  | .error _ s' => .ok () (s'.recorded .failed)

/-- The stages that are reached while documents are edited and frames are delivered. -/
inductive Reflecting (react : React T C (W × List ReflectorEvent)) (key : Nat)
    (E : Stage T C (W × List ReflectorEvent) → Prop) (s : Stage T C (W × List ReflectorEvent)) :
    Stage T C (W × List ReflectorEvent) → Prop
  | refl : Reflecting react key E s s
  | edits {s' s'' : Stage T C (W × List ReflectorEvent)} (hrun : Reflecting react key E s s')
      (hediting : Relation.ReflTransGen (Editing key) s' s'') (hE : E s'') :
      Reflecting react key E s s''
  | frame {s' : Stage T C (W × List ReflectorEvent)} {timestamp : Option T}
      {frame : Opened T C (W × List ReflectorEvent)} (hrun : Reflecting react key E s s')
      (hopen : s'.opened? timestamp = some frame) :
      Reflecting react key E s (after (deliver react timestamp) s')

/-- A frame that can be opened is delivered. -/
theorem Reflecting.deliver {s₀ : Stage T C (W × List ReflectorEvent)}
    {timestamp : Option T} (hrun : Reflecting react key E s₀ s)
    (hopen : (s.opened? timestamp).isSome = true) :
    Reflecting react key E s₀ (after (deliver react timestamp) s) := by
  obtain ⟨frame, hframe⟩ := Option.isSome_iff_exists.mp hopen
  exact hrun.frame hframe

/-- A frame carries over what was noted before it. -/
theorem deliver_settled {timestamp : Option T} {frame : Opened T C (W × List ReflectorEvent)}
    (hattends : Attends react key link E) (hs : Settled key 0 link flushes s) (hE : E s)
    (hopen : s.opened? timestamp = some frame) :
    Settled key 0 link (flushes + frame.tasks.countP (FrameTask.isFlush key))
      (after (deliver react timestamp) s) ∧ E (after (deliver react timestamp) s) := by
  obtain ⟨hopened, hE₁⟩ := opened_settled hattends hs hE hopen
  rw [← Nat.zero_add (List.countP _ _)] at hopened
  unfold after deliver
  rw [obey_step hopen]
  rcases serve_reflects hattends hopened hE₁ with ⟨s₂, hrun, hs₂, hE₂⟩ | ⟨fault, s₂, hrun, hs₂, hE₂⟩
  · rw [hrun]
    exact ⟨hs₂, hE₂⟩
  · rw [hrun]
    exact ⟨.recorded hs₂, hattends.failed s₂ hE₂⟩

theorem Reflecting.settled {s₀ : Stage T C (W × List ReflectorEvent)}
    (hattends : Attends react key link E) (hs₀ : Settled key 0 link 0 s₀) (hE₀ : E s₀)
    (hrun : Reflecting react key E s₀ s) : ∃ flushes, Settled key 0 link flushes s ∧ E s := by
  induction hrun with
  | refl => exact ⟨0, hs₀, hE₀⟩
  | edits _ hediting hE ih =>
      obtain ⟨flushes, hs, -⟩ := ih
      exact ⟨flushes, hs.edits carried_kept hediting, hE⟩
  | frame _ hopen ih =>
      obtain ⟨flushes, hs, hE⟩ := ih
      exact ⟨_, deliver_settled hattends hs hE hopen⟩

/-- What is promised of a reflector with so many of its flushes ahead in a frame: one is requested
at most; every flush handed the document over once, and the text at most once; and if none is
requested, every edit was followed by the document being handed over, and by its text unless that
could not be written. -/
structure Coalesced (key ahead : Nat) (link : Link C) (s : Stage T C (W × List ReflectorEvent)) :
    Prop where
  once : ahead + s.waitingFlushes key ≤ 1
  rebound : ∃ r, s.reflectors[key]? = some r ∧ s.history.countP isRebind = r.flushCount
  paired : paired s.history = true
  carried : ahead + s.waitingFlushes key = 0 → unrebound s.history = false
  written : ahead + s.waitingFlushes key = 0 → link.onText.isSome = true →
    (unwritten s.history = false ↔ troubled s.history = false)

omit [TimeScalar T] [DecidableEq C] in
theorem Settled.coalesced (hs : Settled key ahead link flushes s) : Coalesced key ahead link s := by
  obtain ⟨r, hr, hcarried, hwaiting⟩ := hs.reflector
  have hidle : ahead + s.waitingFlushes key = 0 → r.pendingRebind = false := by
    intro hnone
    rw [hnone] at hwaiting
    rw [← hcarried.handle]
    cases hhandle : r.handle.isSome with
    | false => rfl
    | true => rw [hhandle] at hwaiting; cases hwaiting
  refine ⟨hs.requested_le, ⟨r, hr, ?_⟩, hcarried.paired, ?_, ?_⟩
  · rw [hcarried.rebound, hcarried.flushCount]
  · exact fun hnone => hcarried.rebind.symm.trans (hidle hnone)
  · intro hnone hsome
    have hunwanted : r.pendingText = false := by
      cases hwanted : r.pendingText with
      | false => rfl
      | true => exact (hcarried.carried hwanted).symm.trans (hidle hnone)
    rw [hcarried.text hsome, hunwanted]
    exact Iff.rfl

/-- What is promised of a frame: wherever it has got to in what was requested of it, and while it
flushes a reflector; it flushes it once at most; and it fails only over a document that cannot be
written. -/
structure CoalescedFrame (react : React T C (W × List ReflectorEvent)) (key : Nat) (link : Link C)
    (timestamp : Option T) (frame : Opened T C (W × List ReflectorEvent))
    (s : Stage T C (W × List ReflectorEvent)) : Prop where
  between : ∀ served rest s', frame.tasks = served ++ rest →
    serve react served frame.stage = .ok () s' →
    Coalesced key (rest.countP (FrameTask.isFlush key)) link s'
  within : ∀ served rest s' s'', frame.tasks = served ++ .flush key :: rest →
    serve react served frame.stage = .ok () s' → Flushing react key link s' s'' →
    rest.countP (FrameTask.isFlush key) + s''.waitingFlushes key ≤ 1
  once : ∀ r r', s.reflectors[key]? = some r →
    (after (deliver react timestamp) s).reflectors[key]? = some r' →
    r'.flushCount ≤ r.flushCount + 1
  failing : ∀ fault s', obey react (.step timestamp) s = .error fault s' →
    ∃ doc, s'.document? link.document = some doc ∧ ¬ doc.Writable

theorem Settled.coalescedFrame {timestamp : Option T}
    {frame : Opened T C (W × List ReflectorEvent)} (hattends : Attends react key link E)
    (hs : Settled key 0 link flushes s) (hE : E s) (hopen : s.opened? timestamp = some frame) :
    CoalescedFrame react key link timestamp frame s := by
  obtain ⟨hopened, hE₁⟩ := opened_settled hattends hs hE hopen
  refine ⟨?_, ?_, ?_, ?_⟩
  · rintro served rest s' hsplit hserve
    rw [hsplit] at hopened
    obtain ⟨flushes', hs', -⟩ := served_settled hattends hopened hE₁ hserve
    exact hs'.coalesced
  · rintro served rest s' s'' hsplit hserve hflushing
    rw [hsplit] at hopened
    obtain ⟨flushes', hs', hE'⟩ := served_settled hattends hopened hE₁ hserve
    rw [List.countP_cons_of_pos (FrameTask.isFlush_iff.mpr rfl)] at hs'
    exact hflushing.requested_le hattends hs' hE'
  · rintro r r' hr hr'
    obtain ⟨r₀, hr₀, hcarried, -⟩ := hs.reflector
    obtain ⟨r₁, hr₁, hcarried₁, -⟩ := (deliver_settled hattends hs hE hopen).1.reflector
    cases hr.symm.trans hr₀
    cases hr'.symm.trans hr₁
    rw [hcarried.flushCount, hcarried₁.flushCount]
    have := hopened.requested_le
    omega
  · rintro fault s' hfail
    rw [obey_step hopen] at hfail
    rw [← Nat.zero_add (List.countP _ _)] at hopened
    rcases serve_reflects hattends hopened hE₁ with ⟨s₁, hrun, -⟩ | ⟨fault', s₁, hrun, hfails, -⟩
    · cases hfail.symm.trans hrun
    · cases hfail.symm.trans hrun
      exact hfails.unwritable

/-- Edits of a document are carried over by one flush a frame, however they come in between and
whoever makes them, and none of them is lost unless a frame fails over a document that cannot be
written. -/
theorem edits_coalesce_iff {s₀ : Stage T C (W × List ReflectorEvent)}
    (hattends : Attends react key link E) (hmanual : s₀.Manual)
    (hfresh : s₀.reflectors[key]? =
      some { document := link.document, rebinding := .call link.rebinding, onText := link.onText })
    (hidle : s₀.waitingFlushes key = 0) (hhistory : s₀.history = []) (hE : E s₀)
    (hrun : Reflecting react key E s₀ s) :
    Coalesced key 0 link s ∧ ∀ timestamp frame, s.opened? timestamp = some frame →
      CoalescedFrame react key link timestamp frame s := by
  have hs₀ : Settled key 0 link 0 s₀ := by
    refine ⟨hmanual, _, hfresh, ?_, ?_⟩
    · rw [hhistory]
      exact carried_fresh link
    · rw [hidle]
      rfl
  obtain ⟨flushes, hs, hE'⟩ := hrun.settled hattends hs₀ hE
  exact ⟨hs.coalesced, fun timestamp frame hopen => hs.coalescedFrame hattends hE' hopen⟩

/-! ## A title that is finished -/

/-- Who looks at the edits of a document, who takes it over, and who is handed its text. -/
inductive Attendant where
  | watcher
  | finisher
  | reader
  deriving DecidableEq

/-- Whoever looks at the edits writes down those that the reflector does not ignore. -/
def watching : React Rat Attendant (Unit × List ReflectorEvent)
  | .watcher, .mutation m =>
    modify fun s => if s.heeds 0 m.target then s.recorded .edited else s
  | _, _ => pure ()

/-- A new title is finished by whoever takes the document over. -/
def finishing : React Rat Attendant (Unit × List ReflectorEvent)
  | .finisher, .changed key => do
    record .rebound
    withDocument key fun doc =>
      if doc.tree.root.attribute? "title" = some "new" then
        commitEdit watching key (doc.setAttribute doc.tree.root "title" (some "finished"))
      else pure ()
  | .reader, .written text => record (.written text)
  | c, notice => watching c notice

def titleLink : Link Attendant where
  document := 0
  rebinding := .finisher
  onText := some .reader

/-- The document is looked at, and then reflected. -/
def reflected (prefixes : Entries String String) :
    Stage Rat Attendant (Unit × List ReflectorEvent) where
  source := .manual 0 {}
  trees := [{ tree := (titledAs "old" prefixes).tree }]
  documents := [{ tree := 0, prefixes, observers := [.call .watcher, .reflector 0] }]
  reflectors := [{ document := 0, rebinding := .call .finisher, onText := some .reader }]
  outside := ((), [])

/-- One document is looked at and reflected, and nothing else is live. -/
structure Alone (s : Stage Rat Attendant (Unit × List ReflectorEvent)) : Prop where
  timelines : s.timelines = []
  document : ∃ d, s.documents[0]? = some d ∧ d.observers = [.call .watcher, .reflector 0]
  others : ∀ other, other ≠ 0 → s.reflectors[other]? = none

theorem Alone.beside {s s' : Stage Rat Attendant (Unit × List ReflectorEvent)} (h : Alone s)
    (hbeside : Beside 0 s s') : Alone s' where
  timelines := hbeside.timelines.trans h.timelines
  document := hbeside.documents ▸ h.document
  others other hne := (hbeside.reflectors other hne).trans (h.others other hne)

theorem Alone.edit {s : Stage Rat Attendant (Unit × List ReflectorEvent)} (halone : Alone s)
    (react : React Rat Attendant (Unit × List ReflectorEvent))
    (hwatch : ∀ m, react .watcher (.mutation m) = watching .watcher (.mutation m))
    (htied : Tied 0 titleLink s) (edited : Document × Mutation) :
    ∃ s', commitEdit react 0 edited s = .ok () s' ∧
      Relation.ReflTransGen (Editing 0) s s' ∧ Alone s' := by
  obtain ⟨r, hr, hdocument⟩ := htied.reflector
  obtain ⟨d, hd, hobservers⟩ := halone.document
  have hd' : s.documents[r.document]? = some d := by rw [hdocument]; exact hd
  obtain ⟨s', hrun, hediting, hbeside⟩ := commitEdit_editing (fun m s => congrFun (hwatch m) s)
    htied.manual hr hd' hobservers edited
  rw [hdocument] at hrun
  exact ⟨s', hrun, hediting, halone.beside hbeside⟩

theorem finishing_attends : Attends finishing 0 titleLink Alone where
  stable _ _ _ h := ⟨h.timelines, h.document, h.others⟩
  reflector _ f h := h.beside ⟨rfl, rfl, fun _ hne => modifyReflector_ne hne f⟩
  failed _ h := ⟨h.timelines, h.document, h.others⟩
  rebinds s htied halone := by
    have halone₁ : Alone (s.recorded .rebound) :=
      ⟨halone.timelines, halone.document, halone.others⟩
    have hrun : finishing titleLink.rebinding (.changed 0) s = _ := modify_bind _ _ s
    cases hdoc : (s.recorded .rebound).document? 0 with
    | none =>
        refine ⟨s.recorded .rebound, hrun.trans ?_, .refl, halone₁⟩
        rw [withDocument, get_bind, hdoc]
        rfl
    | some doc =>
        rw [withDocument_some hdoc] at hrun
        split at hrun
        · obtain ⟨s', hedit, hediting, halone'⟩ :=
            halone₁.edit watching (fun _ => rfl) ⟨htied.manual, htied.reflector⟩ _
          exact ⟨s', hrun.trans hedit, hediting, halone'⟩
        · exact ⟨_, hrun, .refl, halone₁⟩
  writes c hc text s _ halone := by
    cases hc
    exact ⟨_, rfl, .refl, halone.timelines, halone.document, halone.others⟩
  others task hne time s _ halone := by
    cases task with
    | tick group =>
        have hnone : s.timeline? group = none := by
          rw [timeline?, halone.timelines]
          rfl
        refine ⟨s, ?_, .refl, halone⟩
        rw [runTask, tick, get_bind, hnone]
        rfl
    | flush other =>
        have hother : other ≠ 0 := fun h => hne (congrArg _ h)
        exact ⟨s, flush_missing (halone.others other hother), .refl, halone⟩
    | call c => exact ⟨s, by cases c <;> rfl, .refl, halone⟩

theorem alone_reflected (prefixes : Entries String String) : Alone (reflected prefixes) where
  timelines := rfl
  document := ⟨_, rfl, rfl⟩
  others other hne := by
    cases other with
    | zero => exact absurd rfl hne
    | succ other => rfl

/-- The document is given a new title. -/
def retitled (prefixes : Entries String String) :
    Stage Rat Attendant (Unit × List ReflectorEvent) :=
  after (setAttribute finishing 0 (titledAs "old" prefixes).tree.root "title" (some "new"))
    (reflected prefixes)

theorem reflecting_retitled (prefixes : Entries String String) :
    Reflecting finishing 0 Alone (reflected prefixes) (retitled prefixes) := by
  have htied : Tied 0 titleLink (reflected prefixes) := ⟨⟨0, {}, rfl⟩, _, rfl, rfl⟩
  obtain ⟨s, hrun, hediting, halone⟩ := (alone_reflected prefixes).edit finishing
    (fun _ => rfl) htied
    ((titledAs "old" prefixes).setAttribute (titledAs "old" prefixes).tree.root "title"
      (some "new"))
  have hretitled : retitled prefixes = s := by
    have hset : setAttribute finishing 0 (titledAs "old" prefixes).tree.root "title" (some "new")
        (reflected prefixes) = .ok () s := hrun
    rw [retitled, after, hset]
    rfl
  rw [hretitled]
  exact .edits .refl hediting halone

/-- The stage after the first frame. -/
def finished (prefixes : Entries String String) :
    Stage Rat Attendant (Unit × List ReflectorEvent) :=
  after (deliver finishing (some 0)) (retitled prefixes)

/-- The first frame has the title finished and hands over what it was finished to, and the second
frame has the finished title taken over. -/
theorem finished_coalesces : ∃ s frame, Reflecting finishing 0 Alone (reflected []) s ∧
    s.history = [.rebound, .written "<vml id=\"r\" title=\"finished\" />", .edited, .rebound,
      .edited] ∧
    Coalesced 0 0 titleLink s ∧ (finished []).opened? (some 1) = some frame ∧
      frame.tasks = [.flush 0] ∧
      CoalescedFrame finishing 0 titleLink (some 1) frame (finished []) := by
  have hcoalesces : ∀ s, Reflecting finishing 0 Alone (reflected []) s →
      Coalesced 0 0 titleLink s ∧ ∀ timestamp frame, s.opened? timestamp = some frame →
        CoalescedFrame finishing 0 titleLink timestamp frame s :=
    fun s => edits_coalesce_iff finishing_attends ⟨0, {}, rfl⟩ rfl rfl rfl (alone_reflected [])
  have hfirst : Reflecting finishing 0 Alone (reflected []) (finished []) :=
    (reflecting_retitled []).deliver (by decide +kernel)
  have hopened : ((finished []).opened? (some 1)).isSome = true := by decide +kernel
  have htasks : (finished []).queue.tasks = [.flush 0] := by decide +kernel
  obtain ⟨frame, hopen⟩ := Option.isSome_iff_exists.mp hopened
  obtain ⟨hqueue, -⟩ := opened?_eq_some hopen
  have hsecond := hfirst.frame hopen
  exact ⟨_, frame, hsecond, by decide +kernel, (hcoalesces _ hsecond).1, hopen,
    hqueue.trans htasks, (hcoalesces _ hfirst).2 _ _ hopen⟩

/-- A namespace whose prefix is kept for numbered ones cannot be registered: the first frame fails,
and although no flush is requested any more after the second one, the title was never handed
over. -/
theorem retitled_unwritten : Attends finishing 0 titleLink Alone ∧
    ∃ s, Reflecting finishing 0 Alone (reflected [("urn:x", "ns0")]) s ∧
      s.waitingFlushes 0 = 0 ∧ titleLink.onText.isSome = true ∧ unwritten s.history = true := by
  have hopened : ((finished [("urn:x", "ns0")]).opened? (some 1)).isSome = true := by
    decide +kernel
  have hfirst : Reflecting finishing 0 Alone (reflected [("urn:x", "ns0")])
      (finished [("urn:x", "ns0")]) := (reflecting_retitled _).deliver (by decide +kernel)
  exact ⟨finishing_attends, _, hfirst.deliver hopened, by decide +kernel, rfl, by decide +kernel⟩

end Cuesheet.Stage
