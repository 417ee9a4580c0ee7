import Cuesheet.Proofs.Stage.Frames

/-!
# Requests that are promises

Whoever requests a frame of a manual source is promised one call, in the next frame that begins,
after those who asked before; taking the request back with its handle ends the promise. `Agenda`
is that promise as a machine that reads what happened, and a log is `Kept` if the machine can read
it. Callbacks request and cancel what they like while they are called.

`promises_kept_iff` is the main statement: whatever is requested, cancelled and stepped, the
promises are kept exactly if nobody cancels a request of a frame that is being delivered before its
turn has come (`Meddled`). Such a request is called all the same: the source has forgotten its
handle.
-/

namespace Cuesheet

/-! ## What happens at a source -/

/-- What happens at a manual source. A frame is what happens from `began` to `ended`. -/
inductive FrameEvent (C : Type) where
  | requested (handle : Nat) (c : C)
  /-- Fewer requests wait afterwards if the cancellation `took` one. -/
  | cancelled (handle : Nat) (took : Bool)
  | began
  | called (c : C)
  | ended
  deriving DecidableEq, Repr

/-- What was promised: the requests that wait for a frame to begin, those that the present frame
still has to serve, and how many were made. -/
structure Agenda (C : Type) where
  waiting : List (Nat × C) := []
  due : List (Nat × C) := []
  made : Nat := 0
  deriving DecidableEq, Repr

/-- The requests but those with a handle. -/
def withoutHandle {C : Type} (handle : Nat) (requests : List (Nat × C)) : List (Nat × C) :=
  requests.filter fun request => request.1 != handle

namespace Agenda

variable {C : Type} [DecidableEq C]

/-- What is promised after an event, unless the event breaks a promise. Handles are numbers in the
order of the requests. A cancellation takes a request that waits under its handle, and else changes
nothing at the source. A frame makes due whatever waits, calls what is due in the order of the
requests, and ends when nothing is due. -/
def next? (agenda : Agenda C) : FrameEvent C → Option (Agenda C)
  | .requested handle c =>
    if handle = agenda.made then
      some { agenda with waiting := agenda.waiting ++ [(handle, c)], made := agenda.made + 1 }
    else none
  | .cancelled handle took =>
    if took = decide (handle ∈ agenda.waiting.map Prod.fst) then
      some { agenda with
        waiting := withoutHandle handle agenda.waiting, due := withoutHandle handle agenda.due }
    else none
  | .began =>
    if agenda.due.isEmpty then some { agenda with waiting := [], due := agenda.waiting } else none
  | .called c =>
    match agenda.due with
    | [] => none
    | request :: rest => if request.2 = c then some { agenda with due := rest } else none
  | .ended => if agenda.due.isEmpty then some agenda else none

/-- What is promised after some events. -/
def after? (log : List (FrameEvent C)) : Option (Agenda C) := log.foldlM next? {}

theorem after?_append (log : List (FrameEvent C)) (event : FrameEvent C) :
    after? (log ++ [event]) = (after? log).bind (next? · event) := by
  simp only [after?, List.foldlM_append, List.foldlM_cons, List.foldlM_nil, Option.bind_eq_bind]
  cases List.foldlM next? {} log with
  | none => rfl
  | some agenda => cases h : next? agenda event <;> simp [h]

/-- Every call that was made was promised and due, and every frame made all calls that were due. -/
def Kept (log : List (FrameEvent C)) : Prop := ∃ agenda ∈ after? log, agenda.due = []

instance (log : List (FrameEvent C)) : Decidable (Kept log) :=
  inferInstanceAs (Decidable (∃ agenda ∈ after? log, agenda.due = []))

/-- A request of the present frame was cancelled before its turn came. -/
def Meddled (log : List (FrameEvent C)) : Prop :=
  ∃ before after handle took agenda, log = before ++ .cancelled handle took :: after ∧
    after? before = some agenda ∧ handle ∈ agenda.due.map Prod.fst

theorem meddled_append {log : List (FrameEvent C)} {event : FrameEvent C} :
    Meddled (log ++ [event]) ↔ Meddled log ∨ ∃ handle took agenda, event = .cancelled handle took ∧
      after? log = some agenda ∧ handle ∈ agenda.due.map Prod.fst := by
  constructor
  · rintro ⟨before, after, handle, took, agenda, hlog, hagenda, hdue⟩
    rcases List.eq_nil_or_concat after with rfl | ⟨after, last, rfl⟩
    · obtain ⟨rfl, hevent⟩ := List.append_inj' hlog rfl
      exact .inr ⟨handle, took, agenda, List.singleton_inj.mp hevent, hagenda, hdue⟩
    · rw [List.concat_eq_append, ← List.cons_append, ← List.append_assoc] at hlog
      exact .inl ⟨before, after, handle, took, agenda, (List.append_inj' hlog rfl).1, hagenda, hdue⟩
  · rintro (⟨before, after, handle, took, agenda, rfl, hagenda, hdue⟩ |
      ⟨handle, took, agenda, rfl, hagenda, hdue⟩)
    · exact ⟨before, after ++ [event], handle, took, agenda, by simp, hagenda, hdue⟩
    · exact ⟨log, [], handle, took, agenda, rfl, hagenda, hdue⟩

end Agenda

/-! ## What the source owes -/

open Agenda

/-- How the requests of a source stand to what was promised: they are what was promised, or
somebody meddled with the present or an earlier frame, and then there are more calls to come than
promises. -/
def Owed {C : Type} [DecidableEq C] (waiting due : List (Nat × C)) (made : Nat)
    (log : List (FrameEvent C)) : Prop :=
  ¬ Meddled log ∧ after? log = some { waiting, due, made } ∨
    Meddled log ∧ ∀ agenda, after? log = some agenda → agenda.due.length < due.length

namespace Owed

variable {C : Type} [DecidableEq C] {waiting due : List (Nat × C)} {made : Nat}
  {log : List (FrameEvent C)}

theorem nil : Owed (C := C) [] [] 0 [] := by
  refine .inl ⟨?_, rfl⟩
  rintro ⟨before, after, handle, took, agenda, hlog, -, -⟩
  cases before <;> cases hlog

/-- Between frames the promises are kept unless somebody meddled. -/
theorem kept_iff (h : Owed waiting [] made log) : Kept log ↔ ¬ Meddled log := by
  rcases h with ⟨hclean, hagenda⟩ | ⟨hmeddled, hfewer⟩
  · exact iff_of_true ⟨_, hagenda, rfl⟩ hclean
  · refine iff_of_false ?_ (not_not_intro hmeddled)
    rintro ⟨agenda, hagenda, -⟩
    exact absurd (hfewer agenda hagenda) (Nat.not_lt_zero _)

/-- An event that is no untimely cancellation, and that the promises follow. -/
theorem append {waiting' due' : List (Nat × C)} {made' : Nat} {event : FrameEvent C}
    (h : Owed waiting due made log)
    (hevent : ∀ handle took, event = .cancelled handle took → handle ∉ due.map Prod.fst)
    (hnext : next? { waiting, due, made } event =
      some { waiting := waiting', due := due', made := made' })
    (hfewer : ∀ agenda agenda' : Agenda C, next? agenda event = some agenda' →
      agenda.due.length < due.length → agenda'.due.length < due'.length) :
    Owed waiting' due' made' (log ++ [event]) := by
  rcases h with ⟨hclean, hagenda⟩ | ⟨hmeddled, hmore⟩
  · refine .inl ⟨?_, by rw [after?_append, hagenda, Option.bind_some, hnext]⟩
    rw [meddled_append]
    rintro (hmeddled | ⟨handle, took, agenda, rfl, hagenda', hdue⟩)
    · exact hclean hmeddled
    · cases hagenda.symm.trans hagenda'
      exact hevent handle took rfl hdue
  · refine .inr ⟨meddled_append.mpr (.inl hmeddled), fun agenda' hagenda' => ?_⟩
    rw [after?_append] at hagenda'
    obtain ⟨agenda, hagenda, hnext'⟩ := Option.bind_eq_some_iff.mp hagenda'
    exact hfewer agenda agenda' hnext' (hmore agenda hagenda)

theorem requested (h : Owed waiting due made log) (c : C) :
    Owed (waiting ++ [(made, c)]) due (made + 1) (log ++ [.requested made c]) := by
  refine h.append (fun _ _ heq => by cases heq) (by simp [next?]) ?_
  intro agenda agenda' hnext hless
  rw [next?] at hnext
  split at hnext
  · cases hnext
    exact hless
  · cases hnext

theorem cancelled (h : Owed waiting due made log) (handle : Nat) :
    Owed (withoutHandle handle waiting) due made
      (log ++ [.cancelled handle (decide (handle ∈ waiting.map Prod.fst))]) := by
  have hshorter : ∀ {took} {agenda agenda' : Agenda C},
      next? agenda (.cancelled handle took) = some agenda' →
        agenda'.due = withoutHandle handle agenda.due := by
    intro took agenda agenda' hnext
    rw [next?] at hnext
    split at hnext
    · cases hnext
      rfl
    · cases hnext
  by_cases hmember : handle ∈ due.map Prod.fst
  · -- the promise ends, and the call comes all the same
    refine .inr ⟨?_, fun agenda' hagenda' => ?_⟩
    · rw [meddled_append]
      rcases h with ⟨-, hagenda⟩ | ⟨hmeddled, -⟩
      · exact .inr ⟨handle, _, _, rfl, hagenda, hmember⟩
      · exact .inl hmeddled
    · rw [after?_append] at hagenda'
      obtain ⟨agenda, hagenda, hnext⟩ := Option.bind_eq_some_iff.mp hagenda'
      rw [hshorter hnext]
      rcases h with ⟨-, hagenda''⟩ | ⟨-, hmore⟩
      · cases hagenda''.symm.trans hagenda
        obtain ⟨request, hrequest, hhandle⟩ := List.mem_map.mp hmember
        refine List.length_filter_lt_length_iff_exists.mpr ⟨request, hrequest, ?_⟩
        simp [hhandle]
      · exact Nat.lt_of_le_of_lt (List.length_filter_le _ _) (hmore agenda hagenda)
  · have hdue : withoutHandle handle due = due := by
      refine List.filter_eq_self.mpr fun request hrequest => ?_
      rw [bne_iff_ne]
      rintro rfl
      exact hmember (List.mem_map_of_mem hrequest)
    refine h.append (fun _ _ heq => ?_) (by rw [next?, if_pos rfl, hdue]) ?_
    · cases heq
      exact hmember
    · intro agenda agenda' hnext hless
      rw [hshorter hnext]
      exact Nat.lt_of_le_of_lt (List.length_filter_le _ _) hless

theorem began (h : Owed waiting [] made log) : Owed [] waiting made (log ++ [.began]) :=
  h.append (fun _ _ heq => by cases heq) rfl fun _ _ _ hless => absurd hless (Nat.not_lt_zero _)

theorem called {request : Nat × C} (h : Owed waiting (request :: due) made log) :
    Owed waiting due made (log ++ [.called request.2]) := by
  refine h.append (fun _ _ heq => by cases heq) (by simp [next?]) ?_
  intro agenda agenda' hnext hless
  rw [next?] at hnext
  split at hnext
  · cases hnext
  · rename_i first rest hdue
    split at hnext
    · cases hnext
      rw [hdue] at hless
      exact Nat.lt_of_succ_lt_succ hless
    · cases hnext

theorem ended (h : Owed waiting [] made log) : Owed waiting [] made (log ++ [.ended]) :=
  h.append (fun _ _ heq => by cases heq) rfl fun _ _ _ hless => absurd hless (Nat.not_lt_zero _)

end Owed

/-! ## Calls and callbacks that are logged -/

/-- What is asked of a source. -/
inductive FrameOp (C : Type) where
  | request (c : C)
  | cancel (handle : Nat)
  deriving DecidableEq, Repr

/-- What is asked of a manual source from outside. -/
inductive SourceCall (T C : Type) where
  | op (op : FrameOp C)
  | step (timestamp : Option T)

/-- What callbacks ask of the source when they are called, given the time and all that happened. -/
abbrev Behaviour (T C : Type) := C → T → List (FrameEvent C) → List (FrameOp C)

namespace Stage

variable {T C : Type} [TimeScalar T]

/-- A stage on which a manual source was just made and nothing happened. -/
def opening (now : T) : Stage T C (List (FrameEvent C)) :=
  { source := .atTime now, outside := [] }

def note (event : FrameEvent C) : Action T C (List (FrameEvent C)) Unit :=
  modify fun s => { s with outside := s.outside ++ [event] }

def ask : FrameOp C → Action T C (List (FrameEvent C)) Unit
  | .request c => do
    let handle ← request (.call c)
    note (.requested handle c)
  | .cancel handle => do
    let before := (← get).source.pending
    cancel handle
    note (.cancelled handle (decide ((← get).source.pending < before)))

def askEach : List (FrameOp C) → Action T C (List (FrameEvent C)) Unit
  | [] => pure ()
  | op :: rest => do
    ask op
    askEach rest

/-- Callbacks that ask what their behaviour says. -/
def answering (behaviour : Behaviour T C) : React T C (List (FrameEvent C))
  | c, .frame time => do
    note (.called c)
    askEach (behaviour c time (← get).outside)
  | _, _ => pure ()

variable [DecidableEq C]

/-- Does what is asked from outside. A step whose time lies in the past begins no frame. -/
def make (behaviour : Behaviour T C) : SourceCall T C → Action T C (List (FrameEvent C)) Unit
  | .op op => ask op
  | .step timestamp => do
    match (← get).opened? timestamp with
    | none => obey (answering behaviour) (.step timestamp)
    | some _ =>
      note .began
      obey (answering behaviour) (.step timestamp)
      note .ended

/-- The stage after calls from outside, one after the other. -/
def makeEach (behaviour : Behaviour T C) (calls : List (SourceCall T C))
    (s : Stage T C (List (FrameEvent C))) : Stage T C (List (FrameEvent C)) :=
  calls.foldl (fun s call => after (make behaviour call) s) s

/-! ## The promises on the stage -/

/-- The stage has made the calls of its frame but for those that are due, and owes what was
promised. -/
def Delivering (due : List (Nat × C)) (s : Stage T C (List (FrameEvent C))) : Prop :=
  ∃ now waiting made, s.source = .manual now
      { waiting := waiting.map (Prod.map id .call), nextHandle := made } ∧
    Owed waiting due made s.outside

variable {due : List (Nat × C)} {s : Stage T C (List (FrameEvent C))}

omit [DecidableEq C] in
/-- What a cancellation comes to. -/
theorem ask_cancel {now : T} {queue : FrameQueue (FrameTask C)}
    (h : s.source = .manual now queue) (handle : Nat) :
    ask (.cancel handle) s = .ok ()
      { s with
        source := .manual now (queue.cancel handle)
        outside := s.outside ++
          [.cancelled handle (decide (handle ∈ queue.waiting.map Prod.fst))] } := by
  have htook : (FrameSource.manual now (queue.cancel handle)).pending <
      (FrameSource.manual now queue).pending ↔ handle ∈ queue.waiting.map Prod.fst := by
    simp only [FrameSource.pending, FrameQueue.cancel, List.length_filter_lt_length_iff_exists,
      List.mem_map, bne_iff_ne, ne_eq, not_not]
  cases s
  cases h
  rw [← decide_eq_decide.mpr htook]
  rfl

theorem ask_delivering (h : s.Delivering due) (op : FrameOp C) :
    ∃ s', ask op s = .ok () s' ∧ s'.Delivering due := by
  obtain ⟨now, waiting, made, hsource, howed⟩ := h
  cases op with
  | request c =>
      refine ⟨_, bind_ok (request_manual hsource (.call c)) _, now, waiting ++ [(made, c)],
        made + 1, ?_, howed.requested c⟩
      simp [FrameQueue.request]
  | cancel handle =>
      refine ⟨_, ask_cancel hsource handle, now, withoutHandle handle waiting, made, ?_, ?_⟩
      · simp [FrameQueue.cancel, withoutHandle, List.filter_map, Function.comp_def]
      · have hhandles : (waiting.map (Prod.map id FrameTask.call)).map Prod.fst =
            waiting.map Prod.fst := by
          simp
        simp only [hhandles]
        exact howed.cancelled handle

theorem askEach_delivering {s : Stage T C (List (FrameEvent C))} (h : s.Delivering due)
    (ops : List (FrameOp C)) : ∃ s', askEach ops s = .ok () s' ∧ s'.Delivering due := by
  induction ops generalizing s with
  | nil => exact ⟨s, rfl, h⟩
  | cons op ops ih =>
      obtain ⟨s₁, hop, h₁⟩ := ask_delivering h op
      obtain ⟨s', hops, h'⟩ := ih h₁
      exact ⟨s', (bind_ok hop _).trans hops, h'⟩

variable (behaviour : Behaviour T C)

/-- The first call that is due. -/
theorem answering_delivering {request : Nat × C} (h : s.Delivering (request :: due)) (time : T) :
    ∃ s', answering behaviour request.2 (.frame time) s = .ok () s' ∧ s'.Delivering due := by
  obtain ⟨now, waiting, made, hsource, howed⟩ := h
  let called : Stage T C (List (FrameEvent C)) :=
    { s with outside := s.outside ++ [.called request.2] }
  have hcalled : called.Delivering due := ⟨now, waiting, made, hsource, howed.called⟩
  exact askEach_delivering hcalled (behaviour request.2 time called.outside)

theorem serve_delivering {s : Stage T C (List (FrameEvent C))} (h : s.Delivering due) :
    ∃ s', serve (answering behaviour) (due.map fun request => .call request.2) s = .ok () s' ∧
      s'.Delivering [] := by
  induction due generalizing s with
  | nil => exact ⟨s, rfl, h⟩
  | cons request due ih =>
      obtain ⟨now, waiting, made, hsource, -⟩ := id h
      obtain ⟨s₁, hcall, h₁⟩ := answering_delivering behaviour h now
      obtain ⟨s', hserve, h'⟩ := ih h₁
      refine ⟨s', ?_, h'⟩
      rw [List.map_cons, serve_cons (by rw [hsource]; rfl)]
      exact (bind_ok hcall _).trans hserve

omit [TimeScalar T] [DecidableEq C] in
/-- A cancellation under a handle that nothing waits under changes nothing. -/
theorem cancel_notMem (hmanual : s.Manual) {handle : Nat}
    (h : handle ∉ s.queue.waiting.map Prod.fst) : Stage.cancel handle s = .ok () s := by
  obtain ⟨now, queue, hsource⟩ := hmanual
  rw [queue_manual hsource] at h
  have hqueue : queue.cancel handle = queue := by
    have hwaiting : (queue.waiting.filter fun entry => entry.1 != handle) = queue.waiting := by
      refine List.filter_eq_self.mpr fun entry hentry => ?_
      rw [bne_iff_ne]
      rintro rfl
      exact h (List.mem_map_of_mem hentry)
    rw [FrameQueue.cancel, hwaiting]
  have hkept : s.source.cancel handle = s.source := by
    rw [hsource, FrameSource.cancel, hqueue]
  exact congrArg (fun source => EStateM.Result.ok () { s with source }) hkept

/-- A step to a time that lies in the past. -/
def Backwards (s : Stage T C (List (FrameEvent C))) (call : SourceCall T C) : Prop :=
  ∃ timestamp, call = .step (some timestamp) ∧
    ∃ now ∈ s.source.now?, TimeScalar.lt timestamp now = true

/-- A call from outside is done, and the frame that it delivers is delivered to its end. Only a step
into the past is refused. -/
theorem make_delivering (h : s.Delivering []) (call : SourceCall T C) :
    (∃ s', make behaviour call s = .ok () s' ∧ s'.Delivering []) ∨
      s.Backwards call ∧ after (make behaviour call) s = s := by
  cases call with
  | op op => exact .inl (ask_delivering h op)
  | step timestamp =>
      obtain ⟨now, waiting, made, hsource, howed⟩ := h
      have hopened : ∀ s' : Stage T C (List (FrameEvent C)), s'.source = s.source →
          s'.opened? timestamp = if timestamp.any (TimeScalar.lt · now) then none else some
            { time := timestamp.getD now
              tasks := waiting.map fun request => .call request.2
              stage := { s' with
                source := .manual (timestamp.getD now) { nextHandle := made } } } := by
        intro s' hs'
        rw [opened?, hs', hsource]
        simp [FrameQueue.tasks, FrameQueue.drained, Function.comp_def]
      have hmake : make behaviour (.step timestamp) s =
          (match s.opened? timestamp with
          | none => obey (answering behaviour) (.step timestamp)
          | some _ => do
            note .began
            obey (answering behaviour) (.step timestamp)
            note .ended) s := rfl
      by_cases hback : timestamp.any (TimeScalar.lt · now) = true
      · have hnone := hopened s rfl
        rw [if_pos hback] at hnone
        have hafter := after_step (answering behaviour) ⟨now, _, hsource⟩ timestamp
        rw [hnone] at hafter
        obtain ⟨time, rfl, hless⟩ := (Option.any_eq_true _ _).mp hback
        refine .inr ⟨⟨time, rfl, now, by rw [hsource]; rfl, hless⟩, ?_⟩
        rw [after, hmake, hnone]
        exact hafter
      · let began : Stage T C (List (FrameEvent C)) :=
          { s with outside := s.outside ++ [.began] }
        have hfirst := hopened s rfl
        have hopen := hopened began rfl
        rw [if_neg hback] at hfirst hopen
        have hbegan : Delivering waiting
            { began with source := .manual (timestamp.getD now) { nextHandle := made } } :=
          ⟨_, [], made, rfl, howed.began⟩
        obtain ⟨s', hserve, now', waiting', made', hsource', howed'⟩ :=
          serve_delivering behaviour hbegan
        have hstep : obey (answering behaviour) (.step timestamp) began = .ok () s' :=
          (obey_step hopen).trans hserve
        refine .inl ⟨{ s' with outside := s'.outside ++ [.ended] }, ?_,
          now', waiting', made', hsource', howed'.ended⟩
        rw [hmake, hfirst]
        exact (bind_ok rfl _).trans (bind_ok hstep _)

theorem makeEach_delivering (h : s.Delivering []) (calls : List (SourceCall T C)) :
    (makeEach behaviour calls s).Delivering [] := by
  induction calls generalizing s with
  | nil => exact h
  | cons call calls ih =>
      refine ih (s := after (make behaviour call) s) ?_
      rcases make_delivering behaviour h call with ⟨s', hmake, h'⟩ | ⟨-, hsame⟩
      · rwa [after, hmake]
      · rwa [hsame]

/-- What is requested of a new manual source is called once, in the next frame that begins, in the
order of the requests, and not at all once it is cancelled: exactly if no request of a frame that is
being delivered is cancelled before its turn. All calls but steps into the past are done, and
cancelling a request that does not wait changes nothing. -/
theorem promises_kept_iff (behaviour : Behaviour T C) (now : T) (calls : List (SourceCall T C)) :
    (Agenda.Kept (makeEach behaviour calls (opening now)).outside ↔
      ¬ Agenda.Meddled (makeEach behaviour calls (opening now)).outside) ∧
    (∀ call, (∃ s', make behaviour call (makeEach behaviour calls (opening now)) = .ok () s') ∨
      (makeEach behaviour calls (opening now)).Backwards call) ∧
    ∀ (s : Stage T C (List (FrameEvent C))) (handle : Nat), s.Manual →
      handle ∉ s.queue.waiting.map Prod.fst → Stage.cancel handle s = .ok () s := by
  have hnew : (opening now : Stage T C _).Delivering [] := ⟨now, [], 0, rfl, .nil⟩
  have hrun := makeEach_delivering behaviour hnew calls
  refine ⟨?_, fun call => ?_, fun s handle hmanual => cancel_notMem hmanual⟩
  · obtain ⟨-, waiting, made, -, howed⟩ := hrun
    exact howed.kept_iff
  · exact (make_delivering behaviour hrun call).imp (fun ⟨s', hmake, _⟩ => ⟨s', hmake⟩) And.left

/-- The first callback asks for another frame in each of its frames, the second one for nothing. -/
def relay : Behaviour Rat Nat := fun c _ _ => if c = 0 then [.request 0] else []

theorem relay_unmeddled : ¬ Agenda.Meddled (makeEach relay
    [.op (.request 0), .op (.request 1), .op (.cancel 1), .step none, .op (.cancel 0), .step none]
    (opening 0)).outside :=
  (promises_kept_iff relay 0 _).1.mp (by decide)

/-- The callback `0` cancels the second request. -/
def quarrel : Behaviour Rat Nat := fun c _ _ => if c = 0 then [.cancel 1] else []

theorem quarrel_breaks :
    (makeEach quarrel [.op (.request 0), .op (.request 1), .step none] (opening 0)).outside =
      [.requested 0 0, .requested 1 1, .began, .called 0, .cancelled 1 false, .called 1, .ended] ∧
    ¬ Agenda.Kept (makeEach quarrel [.op (.request 0), .op (.request 1), .step none]
      (opening 0)).outside := by
  decide

end Stage

end Cuesheet
