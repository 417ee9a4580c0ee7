import Cuesheet.Proofs.Stage.Keeping
import Cuesheet.Proofs.Stage.Ticks
import Cuesheet.Proofs.Time.Exact

/-!
# Calls from outside and the frames they deliver

A run plays calls from outside one after the other, and goes on after calls that fail. Every call
but a step is a shift, or a change of subscribers. A step opens a frame: it takes all requests out
of the queue and serves them. The frame is `Punctual` if no clock has asked for another frame by
the time at which its tick is served; then the stage stays linked (`obey_linked`).
-/

namespace Cuesheet

namespace Stage

variable {T C W : Type} [TimeScalar T]

/-- A frame that is about to be delivered: its time, what was requested of it, and the stage
without these requests. -/
structure Opened (T C W : Type) where
  time : T
  tasks : List (FrameTask C)
  stage : Stage T C W

/-- The frame that a step delivers, unless its time lies in the past. -/
def opened? (s : Stage T C W) (timestamp : Option T) : Option (Opened T C W) :=
  match s.source with
  | .manual now queue =>
    if timestamp.any (TimeScalar.lt · now) then none
    else
      let time := timestamp.getD now
      some { time, tasks := queue.tasks, stage := { s with source := .manual time queue.drained } }
  | _ => none

variable {react : React T C W} {s : Stage T C W}

/-! ## Frames that open -/

/-- A frame serves what waited, and what waits on its stage is asked for while it is served. -/
theorem opened?_eq_some {timestamp : Option T} {frame : Opened T C W}
    (h : s.opened? timestamp = some frame) :
    frame.tasks = s.queue.tasks ∧ frame.stage.source.now? = some frame.time ∧
      frame.stage.Manual ∧ frame.stage.queue = s.queue.drained ∧
        frame.stage.timelines = s.timelines := by
  unfold opened? at h
  split at h
  · rename_i now queue hsource
    split at h
    · cases h
    · cases h
      have hqueue := queue_manual hsource
      exact ⟨by rw [hqueue], rfl, ⟨_, _, rfl⟩, by rw [hqueue]; rfl, rfl⟩
  · cases h

theorem Orderly.opened {timestamp : Option T} {frame : Opened T C W} (h : s.Orderly)
    (hopen : s.opened? timestamp = some frame) : frame.stage.Orderly := by
  obtain ⟨-, -, hmanual, hqueue, htimelines⟩ := opened?_eq_some hopen
  have hhands := hand?_congr htimelines
  refine ⟨hmanual, by rw [hqueue]; exact List.nodup_nil, ?_, ?_, ?_, ?_⟩
  · rw [hqueue]
    exact fun e he => absurd he List.not_mem_nil
  · intro group running handle hg
    rw [hhands] at hg
    rw [hqueue]
    exact h.held hg
  · intro group other running running' handle hg ho
    rw [hhands] at hg ho
    exact h.apart hg ho
  · intro group subscribers hsubs
    rw [subscribers?_congr htimelines] at hsubs
    exact h.called hsubs

/-- On a linked stage a frame serves the tick of every clock at most once, and the clock runs
when the frame begins. -/
theorem Linked.opened {timestamp : Option T} {frame : Opened T C W} (h : s.Linked)
    (hopen : s.opened? timestamp = some frame) :
    frame.stage.Linked ∧ frame.tasks.Nodup ∧ ∀ task ∈ frame.tasks,
      ∃ group handle, task = .tick group ∧ frame.stage.hand? group = some (true, some handle) := by
  obtain ⟨htasks, -, -, hqueue, htimelines⟩ := opened?_eq_some hopen
  refine ⟨⟨h.toOrderly.opened hopen, ?_⟩, ?_, ?_⟩
  · rw [hqueue]
    exact fun e he => absurd he List.not_mem_nil
  · rw [htasks]
    refine (List.Nodup.of_map _ h.nodup).map_on fun e he e' he' heq => ?_
    obtain ⟨group, htask, hhand⟩ := h.own e he
    obtain ⟨other, htask', hhand'⟩ := h.own e' he'
    rw [htask, htask'] at heq
    cases heq
    rw [hhand] at hhand'
    exact Prod.ext (Option.some.inj (Prod.mk.inj (Option.some.inj hhand')).2) (htask.trans htask'.symm)
  · rw [htasks]
    intro task htask
    obtain ⟨e, he, rfl⟩ := List.mem_map.mp htask
    obtain ⟨group, htask, hhand⟩ := h.own e he
    exact ⟨group, e.1, htask, by rw [hand?_congr htimelines, hhand]⟩

theorem Linked.opened_ticks {timestamp : Option T} {frame : Opened T C W} (h : s.Linked)
    (hopen : s.opened? timestamp = some frame) :
    ∀ task ∈ frame.tasks, ∃ group, task = .tick group := by
  intro task htask
  obtain ⟨group, handle, heq, -⟩ := (h.opened hopen).2.2 task htask
  exact ⟨group, heq⟩

/-! ## Frames that are delivered -/

/-- No tick of a frame is served to a clock that has asked for another one by then. -/
def Punctual (react : React T C W) (now : T) : List (FrameTask C) → Stage T C W → Prop
  | [], _ => True
  | task :: rest, s =>
    task ∉ s.queue.tasks ∧ ∀ s', runTask react task now s = .ok () s' → Punctual react now rest s'

omit [TimeScalar T] in
theorem notMem_tasks {task : FrameTask C} :
    task ∉ s.queue.tasks ↔ ∀ handle, (handle, task) ∉ s.queue.waiting := by
  unfold FrameQueue.tasks
  rw [List.mem_map]
  exact ⟨fun h handle he => h ⟨_, he, rfl⟩, fun h ⟨e, he, heq⟩ => h e.1 (heq ▸ he)⟩

/-- A frame keeps what its ticks keep, as far as they are served. -/
theorem serve_keeps {now : T} {I : Stage T C W → Prop} (hnow : ∀ s, I s → s.source.now? = some now) :
    ∀ {tasks : List (FrameTask C)} {s : Stage T C W}, I s →
      (∀ task ∈ tasks, ∀ s, I s → I (after (runTask react task now) s)) →
        I (after (serve react tasks) s)
  | [], s, hs, _ => hs
  | task :: rest, s, hs, htasks => by
      have htask := htasks task List.mem_cons_self s hs
      rw [after, serve_cons (hnow s hs)]
      cases hrun : runTask react task now s with
      | error fault s' =>
          rw [after, hrun] at htask
          rw [bind_error hrun]
          exact htask
      | ok _ s' =>
          rw [after, hrun] at htask
          rw [bind_ok hrun]
          exact serve_keeps hnow htask fun task' h => htasks task' (List.mem_cons_of_mem _ h)

theorem tick_now (hreact : Mannerly react) (h : s.Orderly) (group : String) (now : T) {time : T}
    (htime : s.source.now? = some time) :
    (after (tick (hear react) group now) s).source.now? = some time := by
  have hkeeps := (tick_ticked hreact h group now).keeps
    (I := fun s => s.Manual ∧ s.source.now? = some time) hreact (fun _ h => h.1) ?_ h
    ⟨h.manual, htime⟩ ?_
  · exact hkeeps.2
  · exact fun s s' h hshift => ⟨hshift.manual h.1, hshift.now.trans h.2⟩
  · intro running s' hserves
    obtain ⟨clock, queue, hsource⟩ := h.manual
    exact ⟨⟨clock, queue, hserves.source.trans hsource⟩, by rw [hserves.source]; exact htime⟩

/-- A frame that begins with a tick goes on where the tick leaves the stage, unless it fails. -/
theorem serve_tick (hreact : Mannerly react) (h : s.Orderly) {now : T}
    (hnow : s.source.now? = some now) (group : String) (rest : List (FrameTask C)) :
    (∃ s', runTask react (.tick group) now s = .ok () s' ∧ Ticked react group now s (.ok () s') ∧
        s'.source.now? = some now ∧ serve react (.tick group :: rest) s = serve react rest s') ∨
      ∃ fault s', runTask react (.tick group) now s = .error fault s' ∧
        Ticked react group now s (.error fault s') ∧
          serve react (.tick group :: rest) s = .error fault s' := by
  have hticked : Ticked react group now s (runTask react (.tick group) now s) :=
    tick_ticked hreact h group now
  have hnow' : (after (runTask react (.tick group) now) s).source.now? = some now :=
    tick_now hreact h group now hnow
  rw [serve_cons hnow]
  cases hrun : runTask react (.tick group) now s with
  | ok _ s' =>
      rw [hrun] at hticked
      rw [after, hrun] at hnow'
      exact .inl ⟨s', rfl, hticked, hnow', bind_ok hrun _⟩
  | error fault s' =>
      rw [hrun] at hticked
      exact .inr ⟨fault, s', rfl, hticked, bind_error hrun _⟩

/-- A punctual frame leaves the stage linked. -/
theorem serve_linked (hreact : Mannerly react) {now : T} :
    ∀ {tasks : List (FrameTask C)} {s : Stage T C W}, s.Linked → s.source.now? = some now →
      (∀ task ∈ tasks, ∃ group, task = .tick group) → Punctual react now tasks s →
        (after (serve react tasks) s).Linked
  | [], s, h, _, _, _ => h
  | task :: rest, s, h, hnow, htasks, ⟨hlate, hpunctual⟩ => by
      obtain ⟨group, rfl⟩ := htasks task List.mem_cons_self
      rcases serve_tick hreact h.toOrderly hnow group rest with
        ⟨s', hrun, hticked, hnow', hserve⟩ | ⟨fault, s', hrun, hticked, hserve⟩
      · have hlinked : s'.Linked := hticked.linked hreact h (notMem_tasks.mp hlate)
        rw [after, hserve]
        exact serve_linked hreact hlinked hnow'
          (fun task h => htasks task (List.mem_cons_of_mem _ h)) (hpunctual s' hrun)
      · rw [after, hserve]
        exact hticked.linked hreact h (notMem_tasks.mp hlate)

/-! ## Runs -/

end Stage

/-- What is asked of clocks from outside. -/
inductive Call (T C : Type) where
  | start (group : String)
  | stop (group : String)
  | seek (group : String) (time : T)
  | subscribe (group : String) (c : C)
  | unsubscribe (group : String) (c : C)
  | step (timestamp : Option T)

namespace Stage

variable {T C W : Type} [TimeScalar T] {react : React T C W} {s : Stage T C W}

/-- Taking the requests out of the queue, serving them and forgetting how many they were. -/
theorem serve_counted (f : Stage T C W → Stage T C W) (tasks : List (FrameTask C)) (count : Nat)
    (s : Stage T C W) :
    ((do
      modify f
      serve react tasks
      return count : Action T C W Nat) >>= fun _ => pure ()) s = serve react tasks (f s) := by
  have hserved : (do
      modify f
      serve react tasks
      return count : Action T C W Nat) s = (serve react tasks >>= fun _ => pure count) (f s) :=
    bind_ok rfl _
  cases hrun : serve react tasks (f s) with
  | ok _ s' =>
      rw [bind_ok hrun] at hserved
      exact bind_ok hserved _
  | error fault s' =>
      rw [bind_error hrun] at hserved
      exact bind_error hserved _

theorem step_manual {now : T} {queue : FrameQueue (FrameTask C)}
    (h : s.source = .manual now queue) :
    step react s = (do
      modify fun s => { s with source := .manual now queue.drained }
      serve react queue.tasks
      return queue.tasks.length : Action T C W Nat) s := by
  cases s
  cases h
  rfl

theorem stepTo_manual {now timestamp : T} {queue : FrameQueue (FrameTask C)}
    (h : s.source = .manual now queue) :
    stepTo react timestamp s =
      (if TimeScalar.lt timestamp now then throw (.clock (.backwards timestamp now))
      else do
        modify fun s => { s with source := .manual timestamp queue.drained }
        serve react queue.tasks
        return queue.tasks.length : Action T C W Nat) s := by
  cases s
  cases h
  rfl

/-- Clocks that were never started, and a manual source that was never asked for a frame. -/
structure Idle (s : Stage T C W) : Prop where
  source : ∃ now, s.source = .manual now {}
  clocks : ∀ group tl, s.timeline? group = some tl → tl.hand = (false, none)
  called : ∀ group tl, s.timeline? group = some tl → ∀ sub ∈ tl.subscribers, ∃ c, sub = .call c

omit [TimeScalar T] in
theorem Idle.linked (h : s.Idle) : s.Linked := by
  obtain ⟨now, hsource⟩ := h.source
  have hqueue := queue_manual hsource
  have hheld : ∀ {group : String} {running : Bool} {handle : Nat},
      s.hand? group ≠ some (running, some handle) := by
    intro group running handle hhand
    obtain ⟨tl, htl, heq⟩ := Option.map_eq_some_iff.mp hhand
    rw [h.clocks group tl htl] at heq
    cases heq
  refine ⟨⟨⟨now, _, hsource⟩, by rw [hqueue]; exact List.nodup_nil, ?_, ?_, ?_, ?_⟩, ?_⟩
  · rw [hqueue]
    exact fun e he => absurd he List.not_mem_nil
  · exact fun hg => absurd hg hheld
  · exact fun hg => absurd hg hheld
  · intro group subscribers hsubs
    obtain ⟨tl, htl, rfl⟩ := Option.map_eq_some_iff.mp hsubs
    exact h.called group tl htl
  · rw [hqueue]
    exact fun e he => absurd he List.not_mem_nil

/-- Two clocks that were never started. -/
def pair : Stage Rat Unit Unit :=
  let clock (id : String) : Timeline Rat (Subscriber Unit) :=
    { id, fps := .int 30, mode := .live, loop := false, duration := none, time := 0 }
  { source := .manual 0 {}, timelines := [clock "a", clock "b"], outside := () }

theorem pair_idle : pair.Idle := by
  refine ⟨⟨0, rfl⟩, fun group tl htl => ?_, fun group tl htl => ?_⟩
  all_goals
    have hmem : tl ∈ pair.timelines := List.mem_of_find?_eq_some htl
    rcases List.mem_cons.mp hmem with rfl | hmem
  · rfl
  · obtain rfl := List.mem_singleton.mp hmem
    rfl
  · simp
  · obtain rfl := List.mem_singleton.mp hmem
    simp

omit [TimeScalar T] in
/-- A change of subscribers. -/
theorem Linked.resubscribed (h : s.Linked) {group : String}
    {f : List (Subscriber C) → List (Subscriber C)}
    (hf : ∀ subscribers, (∀ sub ∈ subscribers, ∃ c, sub = .call c) →
      ∀ sub ∈ f subscribers, ∃ c, sub = .call c) :
    (s.modifyTimeline group fun tl => { tl with subscribers := f tl.subscribers }).Linked := by
  have hhands := map_modifyTimeline s (f := fun tl => { tl with subscribers := f tl.subscribers })
    (p := Timeline.hand) (fun tl (h : tl.id = group) => h) fun _ _ => rfl
  refine h.of_hands (h.toOrderly.of_hands h.manual rfl hhands ?_) rfl hhands
  intro other subscribers hsubs
  obtain ⟨tl, htl, rfl⟩ := Option.map_eq_some_iff.mp hsubs
  rw [timeline?_modifyTimeline s (f := fun tl => { tl with subscribers := f tl.subscribers })
    fun tl (h : tl.id = group) => h] at htl
  split at htl
  · obtain ⟨tl', htl', rfl⟩ := Option.map_eq_some_iff.mp htl
    exact hf _ (h.calls htl')
  · exact h.calls htl

variable [DecidableEq C]

/-- Does what is asked. -/
def obey (react : React T C W) : Call T C → Action T C W Unit
  | .start group => start group
  | .stop group => stop group
  | .seek group time => seek group time
  | .subscribe group c => subscribe group (.call c)
  | .unsubscribe group c => unsubscribe group (.call c)
  | .step none => do
    let _ ← step react
  | .step (some timestamp) => do
    let _ ← stepTo react timestamp

/-- What holds of every stage of a run. -/
def Always (P : Stage T C W → Prop) (react : React T C W) : List (Call T C) → Stage T C W → Prop
  | [], s => P s
  | call :: rest, s => P s ∧ Always P react rest (after (obey react call) s)

/-- What holds of every frame that a run delivers. -/
def EachFrame (P : Opened T C W → Prop) (react : React T C W) :
    List (Call T C) → Stage T C W → Prop
  | [], _ => True
  | call :: rest, s =>
    (∀ timestamp frame, call = .step timestamp → s.opened? timestamp = some frame → P frame) ∧
      EachFrame P react rest (after (obey react call) s)

/-- A step serves the frame that it opens. -/
theorem obey_step {timestamp : Option T} {frame : Opened T C W}
    (hopen : s.opened? timestamp = some frame) :
    obey react (.step timestamp) s = serve react frame.tasks frame.stage := by
  unfold opened? at hopen
  split at hopen
  · rename_i now queue hsource
    split at hopen
    · cases hopen
    · rename_i hforward
      cases hopen
      rw [← serve_counted (fun s => { s with source := .manual (timestamp.getD now) queue.drained })
        queue.tasks queue.tasks.length s]
      cases timestamp with
      | none => exact bind_congr_ok (step_manual hsource) fun _ _ _ => rfl
      | some timestamp =>
          have hforward : ¬ TimeScalar.lt timestamp now = true := hforward
          have hstep : stepTo react timestamp s = _ := stepTo_manual hsource
          rw [if_neg hforward] at hstep
          exact bind_congr_ok hstep fun _ _ _ => rfl
  · cases hopen

theorem after_step (react : React T C W) (h : s.Manual) (timestamp : Option T) :
    after (obey react (.step timestamp)) s =
      match s.opened? timestamp with
      | none => s
      | some frame => after (serve react frame.tasks) frame.stage := by
  cases hopen : s.opened? timestamp with
  | some frame =>
      rw [after, obey_step hopen]
      rfl
  | none =>
      obtain ⟨now, queue, hsource⟩ := h
      unfold opened? at hopen
      rw [hsource] at hopen
      cases timestamp with
      | none => cases hopen
      | some timestamp =>
          have hback : TimeScalar.lt timestamp now = true := by
            by_contra hforward
            exact absurd hopen (by simp [Option.any, hforward])
          have hstep : stepTo react timestamp s = _ := stepTo_manual hsource
          rw [if_pos hback] at hstep
          have hrefused : obey react (.step (some timestamp)) s = _ := bind_error hstep _
          rw [after, hrefused]
          rfl

/-- Every call but a step is a shift or a change of subscribers. -/
theorem obey_keeps {I : Stage T C W → Prop} (hmanual : ∀ s, I s → s.Manual)
    (hshift : ∀ s s', I s → s.Shift s' → I s')
    (hsubscribers : ∀ s group (f : List (Subscriber C) → List (Subscriber C)), I s →
      (∀ subscribers, (∀ sub ∈ subscribers, ∃ c, sub = .call c) →
        ∀ sub ∈ f subscribers, ∃ c, sub = .call c) →
      I (s.modifyTimeline group fun tl => { tl with subscribers := f tl.subscribers }))
    (h : I s) (call : Call T C) (hcall : ∀ timestamp, call ≠ .step timestamp) :
    I (after (obey react call) s) := by
  cases call with
  | start group =>
      obtain ⟨s', hstart, hstep⟩ := start_shift (hmanual s h) group
      have hs' : after (start group) s = s' := congrArg left hstart
      exact hs' ▸ hshift _ _ h hstep
  | stop group =>
      obtain ⟨s', hstop, hstep⟩ := stop_shift s group
      have hs' : after (stop group) s = s' := congrArg left hstop
      exact hs' ▸ hshift _ _ h hstep
  | seek group time => exact hshift _ _ h (seek_shift s group time)
  | subscribe group c =>
      refine hsubscribers s group (· ++ [.call c]) h fun subscribers hcalls sub hsub => ?_
      rcases List.mem_append.mp hsub with hsub | hsub
      · exact hcalls sub hsub
      · exact ⟨c, List.mem_singleton.mp hsub⟩
  | unsubscribe group c =>
      refine hsubscribers s group (·.erase (.call c)) h fun subscribers hcalls => ?_
      exact fun sub hsub => hcalls sub (List.mem_of_mem_erase hsub)
  | step timestamp => exact absurd rfl (hcall timestamp)

theorem obey_linked (hreact : Mannerly react) (h : s.Linked) (call : Call T C)
    (hpunctual : ∀ timestamp frame, call = .step timestamp → s.opened? timestamp = some frame →
      Punctual react frame.time frame.tasks frame.stage) :
    (after (obey react call) s).Linked := by
  by_cases hcall : ∃ timestamp, call = .step timestamp
  · obtain ⟨timestamp, rfl⟩ := hcall
    rw [after_step react h.manual]
    split
    · exact h
    · rename_i frame hopen
      obtain ⟨hlinked, -, -⟩ := h.opened hopen
      obtain ⟨-, hnow, -, -, -⟩ := opened?_eq_some hopen
      exact serve_linked hreact hlinked hnow (h.opened_ticks hopen) (hpunctual _ _ rfl hopen)
  · refine obey_keeps (fun _ h => h.manual) (fun _ _ h hshift => h.shift hshift) ?_ h call
      fun timestamp heq => hcall ⟨timestamp, heq⟩
    exact fun s group f h hf => h.resubscribed hf

end Stage

end Cuesheet
