import Cuesheet.Proofs.Stage.Frames

/-!
# Who is told the time

`told` lists whom a frame tells the time, in order, and on what stage. It is what callbacks that
keep a log write down (`told_logged`). In a frame that serves the tick of every clock at most once,
nobody is told twice by one clock (`told_prefix`).
-/

namespace Cuesheet.Stage

variable {T C W : Type} [TimeScalar T] {react : React T C W} {s s' : Stage T C W} {now : T}
  {group : String} {handle : Nat}

/-- That a subscriber of a clock is told the time, and on what stage. -/
structure Telling (T C W : Type) where
  group : String
  subscriber : Subscriber C
  stage : Stage T C W

/-- Whom a clock tells the time, up to the first who fails. -/
def hearers (react : React T C W) (group : String) (time : T) :
    List (Subscriber C) → Stage T C W → List (Telling T C W)
  | [], _ => []
  | subscriber :: rest, s =>
    { group, subscriber, stage := s } ::
      match hear react subscriber time s with
      | .ok _ s => hearers react group time rest s
      | .error _ _ => []

/-- Whom a task of a frame tells the time of a clock. -/
def tellings (react : React T C W) (now : T) (task : FrameTask C) (s : Stage T C W) :
    List (Telling T C W) :=
  match task with
  | .tick group =>
    match s.timeline? group with
    | none => []
    | some tl =>
      match tl.running, (tl.moved now).frameNumber with
      | true, .ok frame =>
        hearers react group (tl.moved now).time tl.subscribers (s.moving group tl now frame)
      | _, _ => []
  | _ => []

/-- Whom a frame tells the time of a clock, in order. -/
def told (react : React T C W) (now : T) :
    List (FrameTask C) → Stage T C W → List (Telling T C W)
  | [], _ => []
  | task :: rest, s =>
    tellings react now task s ++
      match runTask react task now s with
      | .ok _ s => told react now rest s
      | .error _ _ => []

theorem hearers_spec (time : T) :
    ∀ (subscribers : List (Subscriber C)) (s : Stage T C W),
      (hearers react group time subscribers s).map Telling.subscriber <+: subscribers ∧
        ∀ t ∈ hearers react group time subscribers s, t.group = group
  | [], s => ⟨List.prefix_refl _, by simp [hearers]⟩
  | subscriber :: rest, s => by
      unfold hearers
      cases hear react subscriber time s with
      | ok _ s' =>
          obtain ⟨hheard, hgroup⟩ := hearers_spec time rest s'
          refine ⟨(List.prefix_cons_inj _).mpr hheard, fun t ht => ?_⟩
          rcases List.mem_cons.mp ht with rfl | ht
          · rfl
          · exact hgroup t ht
      | error fault s' =>
          refine ⟨(List.prefix_cons_inj _).mpr List.nil_prefix, fun t ht => ?_⟩
          rw [List.mem_singleton.mp ht]

theorem hearers_moves (hreact : Mannerly react) (time : T) :
    ∀ {subscribers : List (Subscriber C)} {s : Stage T C W},
      (∀ sub ∈ subscribers, ∃ c, sub = .call c) →
        ∀ t ∈ hearers react group time subscribers s, s.Moves t.stage
  | [], s, _, t, ht => by cases ht
  | subscriber :: rest, s, hcalls, t, ht => by
      obtain ⟨c, rfl⟩ := hcalls subscriber List.mem_cons_self
      have hfirst := hreact c (.tick time) s
      unfold hearers at ht
      rcases List.mem_cons.mp ht with rfl | ht
      · exact .refl
      · rw [after, show react c (.tick time) s = hear react (.call c) time s from rfl] at hfirst
        cases hhear : hear react (.call c) time s with
        | error fault s' =>
            rw [hhear] at ht
            cases ht
        | ok _ s' =>
            rw [hhear] at ht hfirst
            exact hfirst.trans (hearers_moves hreact time (fun sub hsub =>
              hcalls sub (List.mem_cons_of_mem _ hsub)) t ht)

theorem tellings_cases (react : React T C W) (now : T) (task : FrameTask C) (s : Stage T C W) :
    tellings react now task s = [] ∨ ∃ group tl frame, task = .tick group ∧
      s.timeline? group = some tl ∧ tellings react now task s =
        hearers react group (tl.moved now).time tl.subscribers (s.moving group tl now frame) := by
  unfold tellings
  split
  · rename_i group
    split
    · exact .inl rfl
    · rename_i tl htl
      split
      · rename_i frame hrun hnumber
        exact .inr ⟨group, tl, frame, rfl, htl, rfl⟩
      · exact .inl rfl
  · exact .inl rfl

theorem tellings_task {task : FrameTask C} :
    ∀ t ∈ tellings react now task s, task = .tick t.group := by
  intro t ht
  rcases tellings_cases react now task s with h | ⟨_, tl, frame, rfl, -, h⟩
  · rw [h] at ht
    cases ht
  · rw [h] at ht
    rw [(hearers_spec _ _ _).2 t ht]

theorem tellings_prefix {subscribers : List (Subscriber C)}
    (h : s.subscribers? group = some subscribers) :
    (tellings react now (.tick group) s).map Telling.subscriber <+: subscribers := by
  rcases tellings_cases react now (.tick group) s with
    hnil | ⟨_, tl, frame, heq, htl, htold⟩
  · rw [hnil]
    exact List.nil_prefix
  · cases heq
    rw [htold]
    unfold subscribers? at h
    rw [htl] at h
    cases h
    exact (hearers_spec _ _ _).1

/-- Whoever is told the time by a clock that has no request is on a linked stage. -/
theorem tellings_linked (hreact : Mannerly react) (h : s.Linked) {task : FrameTask C}
    (hnone : task ∉ s.queue.tasks) : ∀ t ∈ tellings react now task s, t.stage.Linked := by
  intro t ht
  rcases tellings_cases react now task s with
    hnil | ⟨group, tl, frame, rfl, htl, htold⟩
  · rw [hnil] at ht
    cases ht
  · rw [htold] at ht
    have hserved := h.serves (serves_moving htl now frame) (notMem_tasks.mp hnone)
    exact hserved.moves (hearers_moves hreact _ (h.calls htl) t ht)

/-- The tick of one clock leaves the subscribers of all clocks in place. -/
theorem Ticked.subscribers {r : EStateM.Result (StageFault T) (Stage T C W) Unit}
    (h : Ticked react group now s r) (hreact : Mannerly react) (hord : s.Orderly)
    (other : String) : (left r).subscribers? other = s.subscribers? other := by
  have hkeeps := h.keeps (I := fun s' => s'.Manual ∧ s'.subscribers? other = s.subscribers? other)
    hreact (fun _ h => h.1) ?_ hord ⟨hord.manual, rfl⟩ ?_
  · exact hkeeps.2
  · exact fun s₁ s₂ h hshift => ⟨hshift.manual h.1, (hshift.subscribers other).trans h.2⟩
  · exact fun running s₁ hserves => ⟨(hord.serves hserves).manual, hserves.subscribers other⟩

theorem told_group {tasks : List (FrameTask C)} {s : Stage T C W} :
    ∀ t ∈ told react now tasks s, .tick t.group ∈ tasks := by
  induction tasks generalizing s with
  | nil => exact fun t ht => by cases ht
  | cons task rest ih =>
      intro t ht
      rcases List.mem_append.mp ht with ht | ht
      · rw [tellings_task t ht]
        exact List.mem_cons_self
      · split at ht
        · exact List.mem_cons_of_mem _ (ih t ht)
        · cases ht

/-- In a frame that serves the tick of every clock at most once, no subscriber is told twice by
one clock. -/
theorem told_prefix (hreact : Mannerly react) {subscribers : List (Subscriber C)} :
    ∀ {tasks : List (FrameTask C)} {s : Stage T C W}, s.Orderly →
      (∀ task ∈ tasks, ∃ group, task = .tick group) → tasks.Nodup →
        s.subscribers? group = some subscribers →
          ((told react now tasks s).filter (·.group == group)).map Telling.subscriber <+:
            subscribers
  | [], s, _, _, _, _ => List.nil_prefix
  | task :: rest, s, h, htasks, hnodup, hsubs => by
      obtain ⟨other, rfl⟩ := htasks task List.mem_cons_self
      obtain ⟨hnotin, hnodup'⟩ := List.nodup_cons.mp hnodup
      unfold told
      rw [List.filter_append, List.map_append]
      by_cases hother : other = group
      · subst hother
        have hall : (tellings react now (.tick other) s).filter (·.group == other) =
            tellings react now (.tick other) s := by
          refine List.filter_eq_self.mpr fun t ht => ?_
          cases tellings_task t ht
          exact beq_self_eq_true _
        have hrest : ∀ l : List (Telling T C W), (∀ t ∈ l, .tick t.group ∈ rest) →
            l.filter (·.group == other) = [] := by
          refine fun l hl => List.filter_eq_nil_iff.mpr fun t ht heq => ?_
          exact hnotin (eq_of_beq heq ▸ hl t ht)
        rw [hall, hrest _ ?_, List.map_nil, List.append_nil]
        · exact tellings_prefix hsubs
        · intro t ht
          split at ht
          · exact told_group t ht
          · cases ht
      · have hnone : (tellings react now (.tick other) s).filter (·.group == group) = [] := by
          refine List.filter_eq_nil_iff.mpr fun t ht heq => ?_
          cases tellings_task t ht
          exact hother (eq_of_beq heq)
        rw [hnone, List.map_nil, List.nil_append]
        have hticked := tick_ticked hreact h other now
        split
        · rename_i s' hrun
          rw [show tick (hear react) other now s = _ from hrun] at hticked
          refine told_prefix hreact (hticked.orderly hreact h)
            (fun task htask => htasks task (List.mem_cons_of_mem _ htask)) hnodup' ?_
          exact (hticked.subscribers hreact h group).trans hsubs
        · exact List.nil_prefix

/-- In a punctual frame everyone is told the time on a linked stage. -/
theorem told_linked (hreact : Mannerly react) :
    ∀ {tasks : List (FrameTask C)} {s : Stage T C W}, s.Linked →
      (∀ task ∈ tasks, ∃ group, task = .tick group) → Punctual react now tasks s →
        ∀ t ∈ told react now tasks s, t.stage.Linked
  | [], s, _, _, _, t, ht => by cases ht
  | task :: rest, s, h, htasks, hpunctual, t, ht => by
      obtain ⟨group, rfl⟩ := htasks task List.mem_cons_self
      rcases List.mem_append.mp ht with ht | ht
      · exact tellings_linked hreact h hpunctual.1 t ht
      · have hticked := (tick_ticked hreact h.toOrderly group now).linked hreact h
          (notMem_tasks.mp hpunctual.1)
        split at ht
        · rename_i s' hrun
          rw [show tick (hear react) group now s = _ from hrun] at hticked
          exact told_linked hreact hticked
            (fun task htask => htasks task (List.mem_cons_of_mem _ htask))
            (hpunctual.2 s' hrun) t ht
        · cases ht

/-! ## Logs -/

/-- What callbacks write down that are called one after the other. -/
theorem hearEach_logged {log : W → List C}
    (hlog : ∀ c time (s : Stage T C W),
      log (after (react c (.tick time)) s).outside = log s.outside ++ [c])
    (group : String) (time : T) :
    ∀ (subscribers : List (Subscriber C)) (s : Stage T C W),
      (∀ sub ∈ subscribers, ∃ c, sub = .call c) →
        ∃ calls, (hearers react group time subscribers s).map Telling.subscriber =
            calls.map .call ∧
          log (after (tick.hearEach (hear react) time subscribers) s).outside =
            log s.outside ++ calls
  | [], s, _ => ⟨[], rfl, (List.append_nil _).symm⟩
  | subscriber :: rest, s, hcalls => by
      obtain ⟨c, rfl⟩ := hcalls subscriber List.mem_cons_self
      have hfirst := hlog c time s
      unfold hearers
      cases hhear : hear react (.call c) time s with
      | error fault s₁ =>
          refine ⟨[c], rfl, ?_⟩
          have heach : tick.hearEach (hear react) time (.call c :: rest) s = .error fault s₁ :=
            bind_error hhear _
          rw [after, show react c (.tick time) s = _ from hhear] at hfirst
          rw [after, heach]
          exact hfirst
      | ok _ s₁ =>
          obtain ⟨calls, hheard, hrest⟩ := hearEach_logged hlog group time rest s₁
            fun sub hsub => hcalls sub (List.mem_cons_of_mem _ hsub)
          have heach : tick.hearEach (hear react) time (.call c :: rest) s =
              tick.hearEach (hear react) time rest s₁ := bind_ok hhear _
          rw [after, show react c (.tick time) s = _ from hhear] at hfirst
          refine ⟨c :: calls, congrArg (_ :: ·) hheard, ?_⟩
          rw [after, heach]
          refine hrest.trans ?_
          rw [show log s₁.outside = _ from hfirst, List.append_assoc]
          rfl

theorem renew_outside (h : s.Manual) (hrenew : renew group s = .ok () s') :
    s'.outside = s.outside := by
  obtain ⟨s₁, hrenew₁, hcases⟩ := renew_asks h group
  rw [hrenew] at hrenew₁
  cases hrenew₁
  rcases hcases with ⟨rfl, -⟩ | ⟨-, hasks⟩
  · rfl
  · exact hasks.outside

theorem Ticked.logged {r : EStateM.Result (StageFault T) (Stage T C W) Unit} {log : W → List C}
    (h : Ticked react group now s r) (hreact : Mannerly react) (hord : s.Orderly)
    (hlog : ∀ c time (s : Stage T C W),
      log (after (react c (.tick time)) s).outside = log s.outside ++ [c]) :
    ∃ calls, (tellings react now (.tick group) s).map Telling.subscriber = calls.map .call ∧
      log (left r).outside = log s.outside ++ calls := by
  unfold tellings
  cases h with
  | absent none =>
      dsimp only
      rw [none]
      exact ⟨[], rfl, (List.append_nil _).symm⟩
  | stopped clock running _ outside =>
      dsimp only
      rw [clock, left, outside]
      dsimp only
      rw [running]
      exact ⟨[], rfl, (List.append_nil _).symm⟩
  | broken clock running number _ outside =>
      dsimp only
      rw [clock, left, outside]
      dsimp only
      rw [running, number]
      exact ⟨[], rfl, (List.append_nil _).symm⟩
  | @told tl frame s' clock running number renewed =>
      obtain ⟨calls, hheard, hlogged⟩ := hearEach_logged hlog group (tl.moved now).time
        tl.subscribers (s.moving group tl now frame) (hord.calls clock)
      dsimp only
      rw [clock]
      dsimp only
      rw [running, number]
      refine ⟨calls, hheard, ?_⟩
      have hmoves := telling_moves hreact hord clock now frame
      have hmanual := ((hord.serves (serves_moving clock now frame)).moves hmoves).manual
      rw [left_leaving, renew_outside hmanual renewed]
      exact hlogged

/-- If all callbacks write down that they are told the time, then the log of a frame says who is
told. -/
theorem told_logged {log : W → List C} (hreact : Mannerly react)
    (hlog : ∀ c time (s : Stage T C W),
      log (after (react c (.tick time)) s).outside = log s.outside ++ [c]) :
    ∀ {tasks : List (FrameTask C)} {s : Stage T C W}, s.Orderly → s.source.now? = some now →
      (∀ task ∈ tasks, ∃ group, task = .tick group) →
        ∃ calls, (told react now tasks s).map Telling.subscriber = calls.map .call ∧
          log (after (serve react tasks) s).outside = log s.outside ++ calls
  | [], s, _, _, _ => ⟨[], rfl, (List.append_nil _).symm⟩
  | task :: rest, s, h, hnow, htasks => by
      obtain ⟨group, rfl⟩ := htasks task List.mem_cons_self
      unfold told
      rw [List.map_append]
      rcases serve_tick hreact h hnow group rest with
        ⟨s', hrun, hticked, hnow', hserve⟩ | ⟨fault, s', hrun, hticked, hserve⟩
      · obtain ⟨calls, htold, hlogged⟩ := hticked.logged hreact h hlog
        have hord : s'.Orderly := hticked.orderly hreact h
        obtain ⟨calls', htold', hlogged'⟩ := told_logged hreact hlog hord hnow'
          fun task htask => htasks task (List.mem_cons_of_mem _ htask)
        refine ⟨calls ++ calls', ?_, ?_⟩
        · rw [htold, hrun, List.map_append, ← htold']
        · rw [after, hserve, ← List.append_assoc, ← hlogged]
          exact hlogged'
      · obtain ⟨calls, htold, hlogged⟩ := hticked.logged hreact h hlog
        refine ⟨calls, ?_, ?_⟩
        · rw [htold, hrun]
          exact List.append_nil _
        · rw [after, hserve]
          exact hlogged

end Cuesheet.Stage
