import Cuesheet.Proofs.Stage.Frames

/-!
# Which clocks stay awake

A clock that runs is *awake* if it has asked for a frame. Every tick asks for the next frame, also
if a subscriber fails, but only for its own clock: the ticks that come after it in the frame are
lost, and so is the next frame of a clock whose frame number cannot be computed. `always_awake_iff`
says that nothing else puts a clock to sleep: where subscribers leave the clocks alone, all running
clocks are awake all the time if and only if all frames are delivered.
-/

namespace Cuesheet

/-- A clock runs on beyond a frame, but has no frame number there. -/
def Timeline.Breaks {T S : Type} [TimeScalar T] (tl : Timeline T S) (now : T) : Prop :=
  (tl.moved now).running = true ∧ ∃ fault, (tl.moved now).frameNumber = .error fault

namespace Stage

variable {T C W : Type} [TimeScalar T] {react : React T C W} {s : Stage T C W} {now : T}

/-- Every tick of a frame is served. The last one may fail if its clock does not break. -/
def Delivers (react : React T C W) (now : T) : List (FrameTask C) → Stage T C W → Prop
  | [], _ => True
  | task :: rest, s =>
    match runTask react task now s with
    | .ok _ s' => Delivers react now rest s'
    | .error _ _ => rest = [] ∧
      ∀ group tl, task = .tick group → s.timeline? group = some tl → ¬ tl.Breaks now

omit [TimeScalar T] in
theorem awake_iff : s.Awake ↔
    ∀ group handle, s.hand? group = some (true, handle) → 0 < s.waitingTicks group := by
  constructor
  · intro h group handle hhand
    obtain ⟨tl, htl, heq⟩ := Option.map_eq_some_iff.mp hhand
    exact h group tl htl (Prod.mk.inj heq).1
  · intro h group tl htl hrun
    exact h group tl.handle (by rw [hand?_of_timeline? htl, hrun])

/-! ## Quiet ticks -/

omit [TimeScalar T] in
theorem waitingTicks_request {group : String} {s' : Stage T C W}
    (h : s'.queue = s.queue.request (.tick group)) (other : String) :
    s'.waitingTicks other = s.waitingTicks other + if other = group then 1 else 0 := by
  unfold waitingTicks
  rw [h]
  show (s.queue.waiting ++ [_]).countP _ = _
  rw [List.countP_append, List.countP_singleton]
  congr 1
  by_cases hother : other = group
  · rw [if_pos (FrameTask.isTick_iff.mpr (by rw [hother])), if_pos hother]
  · rw [if_neg hother, if_neg]
    intro htask
    cases FrameTask.isTick_iff.mp htask
    exact hother rfl

variable {group : String} {r : EStateM.Result (StageFault T) (Stage T C W) Unit}

omit [TimeScalar T] in
theorem Serves.waitingTicks {running : Bool} {s' : Stage T C W} (h : Serves group running s s')
    (other : String) : s'.waitingTicks other = s.waitingTicks other := by
  unfold Stage.waitingTicks
  rw [queue_congr h.source]

/-- Once its subscribers were told without anything else happening, a clock is awake if it runs,
and the other clocks are as they were. -/
theorem telling_renewed (hquiet : Quiet react) (hord : s.Orderly)
    {tl : Timeline T (Subscriber C)} (clock : s.timeline? group = some tl) {frame : Int}
    {s' : Stage T C W}
    (renewed : renew group (left (telling react s group tl now frame)) = .ok () s') :
    (∀ other, other ≠ group →
      s'.hand? other = s.hand? other ∧ s'.waitingTicks other = s.waitingTicks other) ∧
        ∀ handle, s'.hand? group = some (true, handle) → 0 < s'.waitingTicks group := by
  obtain ⟨hsource, htimelines⟩ := telling_quiet hquiet hord clock now frame
  have hserves : Serves group (tl.moved now).running s
      (left (telling react s group tl now frame)) := by
    have hmoving := serves_moving clock now frame
    refine ⟨hsource, fun other => ?_, fun other => ?_⟩
    · rw [subscribers?_congr htimelines, hmoving.subscribers]
    · rw [hand?_congr htimelines, hmoving.hands]
  obtain ⟨s₁, hrenew, hcases⟩ := renew_asks (hord.serves hserves).manual group
  rw [renewed] at hrenew
  cases hrenew
  rcases hcases with ⟨rfl, hnot⟩ | ⟨-, hasks⟩
  · refine ⟨fun other hne => ⟨by rw [hserves.hands, if_neg hne], hserves.waitingTicks other⟩, ?_⟩
    intro handle h
    rw [hserves.hands, if_pos rfl] at h hnot
    rw [(Prod.mk.inj (Option.some.inj h)).1] at hnot
    exact absurd rfl hnot
  · refine ⟨fun other hne => ⟨?_, ?_⟩, fun handle _ => ?_⟩
    · rw [hasks.hands, if_neg hne, hserves.hands, if_neg hne]
    · rw [waitingTicks_request hasks.queue, if_neg hne, Nat.add_zero, hserves.waitingTicks]
    · rw [waitingTicks_request hasks.queue, if_pos rfl]
      exact Nat.succ_pos _

/-- A quiet tick is nothing to the other clocks. -/
theorem Ticked.quiet_others (h : Ticked react group now s r) (hquiet : Quiet react)
    (hord : s.Orderly) {other : String} (hne : other ≠ group) :
    (left r).hand? other = s.hand? other ∧
      (left r).waitingTicks other = s.waitingTicks other := by
  cases h with
  | absent _ => exact ⟨rfl, rfl⟩
  | stopped _ _ serves _ =>
      exact ⟨(serves.hands other).trans (if_neg hne), serves.waitingTicks other⟩
  | broken _ _ _ serves _ =>
      exact ⟨(serves.hands other).trans (if_neg hne), serves.waitingTicks other⟩
  | told clock running number renewed =>
      rw [left_leaving]
      exact (telling_renewed hquiet hord clock renewed).1 other hne

/-- After a quiet tick the clock is awake if it runs, unless it broke: then it runs and has only
what it had asked for before. -/
theorem Ticked.quiet_own (h : Ticked react group now s r) (hquiet : Quiet react)
    (hord : s.Orderly) :
    (∀ handle, (left r).hand? group = some (true, handle) → 0 < (left r).waitingTicks group) ∧
        (∀ tl, s.timeline? group = some tl → tl.running = true → ¬ tl.Breaks now) ∨
      (∃ fault, r = .error fault (left r)) ∧ (left r).hand? group = some (true, none) ∧
        (left r).waitingTicks group = s.waitingTicks group ∧
          ∃ tl, s.timeline? group = some tl ∧ tl.Breaks now := by
  cases h with
  | absent none =>
      have hnone : s.hand? group = .none := by
        unfold hand?
        rw [none]; rfl
      refine .inl ⟨fun handle hhand => ?_, fun tl htl => ?_⟩
      · rw [show s.hand? group = _ from hhand] at hnone
        cases hnone
      · rw [none] at htl
        cases htl
  | @stopped tl s' clock running serves _ =>
      refine .inl ⟨fun handle hhand => ?_, fun tl' htl hrun => ?_⟩
      · have hhand' := ((serves.hands group).symm.trans hhand)
        rw [if_pos rfl] at hhand'
        cases hhand'
      · rw [clock] at htl
        cases htl
        rw [running] at hrun
        cases hrun
  | @broken tl fault s' clock running number serves _ =>
      have hown := serves.hands group
      rw [if_pos rfl] at hown
      cases hgoes : (tl.moved now).running with
      | true =>
          rw [hgoes] at hown
          exact .inr ⟨⟨_, rfl⟩, hown, serves.waitingTicks group, tl, clock, hgoes, fault, number⟩
      | false =>
          rw [hgoes] at hown
          refine .inl ⟨fun handle hhand => ?_, fun tl' htl _ hbreaks => ?_⟩
          · rw [show s'.hand? group = _ from hhand] at hown
            cases hown
          · rw [clock] at htl
            cases htl
            exact absurd hbreaks.1 (ne_true_of_eq_false hgoes)
  | @told tl frame s' clock running number renewed =>
      refine .inl ⟨?_, fun tl' htl _ hbreaks => ?_⟩
      · rw [left_leaving]
        exact (telling_renewed hquiet hord clock renewed).2
      · rw [clock] at htl
        cases htl
        obtain ⟨-, fault, hfault⟩ := hbreaks
        rw [number] at hfault
        cases hfault

/-! ## Frames -/

/-- What holds while a quiet frame is delivered: the clocks whose ticks are yet to be served run
and have asked for nothing since the frame began. -/
structure Owing (now : T) (tasks : List (FrameTask C)) (s : Stage T C W) : Prop where
  linked : s.Linked
  time : s.source.now? = some now
  nodup : tasks.Nodup
  owed : ∀ task ∈ tasks, ∃ group handle,
    task = .tick group ∧ s.hand? group = some (true, handle) ∧ s.waitingTicks group = 0

/-- Besides, all other clocks that run are awake. -/
structure Serving (now : T) (tasks : List (FrameTask C)) (s : Stage T C W) : Prop
    extends Owing now tasks s where
  awake : ∀ group handle, s.hand? group = some (true, handle) →
    .tick group ∈ tasks ∨ 0 < s.waitingTicks group

variable {tasks rest : List (FrameTask C)}

namespace Owing

omit [TimeScalar T] in
theorem notMem (h : Owing now (.tick group :: rest) s) : .tick group ∉ s.queue.tasks := by
  obtain ⟨_, handle, heq, -, hnone⟩ := h.owed _ List.mem_cons_self
  cases heq
  refine notMem_tasks.mpr fun handle he => ?_
  exact absurd (waitingTicks_pos.mpr ⟨handle, he⟩) (Nat.not_lt.mpr (Nat.le_of_eq hnone))

/-- A tick leaves the rest of the frame to be delivered. -/
theorem tick (h : Owing now (.tick group :: rest) s) (hquiet : Quiet react) {s' : Stage T C W}
    (hrun : Stage.tick (hear react) group now s = .ok () s') : Owing now rest s' := by
  have hord := h.linked.toOrderly
  have hticked := tick_ticked hquiet.mannerly hord group now
  have hlinked := hticked.linked hquiet.mannerly h.linked (notMem_tasks.mp h.notMem)
  have htime := tick_now hquiet.mannerly hord group now h.time
  rw [after] at htime
  rw [hrun] at hticked hlinked htime
  obtain ⟨hnotin, hnodup⟩ := List.nodup_cons.mp h.nodup
  refine ⟨hlinked, htime, hnodup, fun task htask => ?_⟩
  obtain ⟨other, handle, rfl, hhand, hnone⟩ := h.owed task (List.mem_cons_of_mem _ htask)
  have hne : other ≠ group := fun heq => hnotin (heq ▸ htask)
  obtain ⟨hhand', hwaiting⟩ := hticked.quiet_others hquiet hord hne
  exact ⟨other, handle, rfl, hhand'.trans hhand, hwaiting.trans hnone⟩

theorem punctual (hquiet : Quiet react) :
    ∀ {tasks : List (FrameTask C)} {s : Stage T C W}, Owing now tasks s →
      Punctual react now tasks s
  | [], _, _ => trivial
  | task :: rest, s, h => by
      obtain ⟨group, handle, rfl, -⟩ := h.owed task List.mem_cons_self
      exact ⟨h.notMem, fun s' hrun => punctual hquiet (h.tick hquiet hrun)⟩

end Owing

namespace Serving

theorem tick (h : Serving now (.tick group :: rest) s) (hquiet : Quiet react) {s' : Stage T C W}
    (hrun : Stage.tick (hear react) group now s = .ok () s') : Serving now rest s' := by
  have hord := h.linked.toOrderly
  have hticked := tick_ticked hquiet.mannerly hord group now
  rw [hrun] at hticked
  refine ⟨h.toOwing.tick hquiet hrun, fun other handle hother => ?_⟩
  by_cases hne : other = group
  · subst hne
    rcases hticked.quiet_own hquiet hord with ⟨hawake, -⟩ | ⟨⟨fault, herror⟩, -⟩
    · exact .inr (hawake handle hother)
    · cases herror
  · obtain ⟨hhand, hwaiting⟩ := hticked.quiet_others hquiet hord hne
    rcases h.awake other handle (hhand.symm.trans hother) with hmem | hpos
    · rcases List.mem_cons.mp hmem with heq | hmem
      · cases heq
        exact absurd rfl hne
      · exact .inl hmem
    · exact .inr (Nat.lt_of_lt_of_eq hpos hwaiting.symm)

/-- A tick that fails leaves all clocks awake only if it is the last one and its clock does not
break. -/
theorem failed_iff (h : Serving now (.tick group :: rest) s) (hquiet : Quiet react)
    {fault : StageFault T} {s' : Stage T C W}
    (hrun : Stage.tick (hear react) group now s = .error fault s') :
    s'.Awake ↔ rest = [] ∧ ∀ tl, s.timeline? group = some tl → ¬ tl.Breaks now := by
  have hord := h.linked.toOrderly
  have hticked := tick_ticked hquiet.mannerly hord group now
  rw [hrun] at hticked
  obtain ⟨hnotin, -⟩ := List.nodup_cons.mp h.nodup
  obtain ⟨_, handle, heq, hhand, hnone⟩ := h.owed _ List.mem_cons_self
  cases heq
  rw [awake_iff]
  constructor
  · intro hawake
    constructor
    · cases rest with
      | nil => rfl
      | cons task rest =>
          obtain ⟨other, handle', rfl, hhand', hnone'⟩ := h.owed task (by simp)
          have hne : other ≠ group := fun heq => hnotin (heq ▸ List.mem_cons_self)
          obtain ⟨hsame, hwaiting⟩ := hticked.quiet_others hquiet hord hne
          have hpos := hawake other handle' (hsame.trans hhand')
          rw [show s'.waitingTicks other = _ from hwaiting, hnone'] at hpos
          cases hpos
    · rcases hticked.quiet_own hquiet hord with ⟨-, hwhole⟩ | ⟨-, hown, hwaiting, -⟩
      · intro tl htl
        have hrunning := (hand?_of_timeline? htl).symm.trans hhand
        exact hwhole tl htl (Prod.mk.inj (Option.some.inj hrunning)).1
      · have hpos := hawake group none hown
        rw [show s'.waitingTicks group = _ from hwaiting, hnone] at hpos
        cases hpos
  · rintro ⟨rfl, hwhole⟩ other handle' hother
    by_cases hne : other = group
    · subst hne
      rcases hticked.quiet_own hquiet hord with ⟨hawake, -⟩ | ⟨-, -, -, tl, htl, hbreaks⟩
      · exact hawake handle' hother
      · exact absurd hbreaks (hwhole tl htl)
    · obtain ⟨hsame, hwaiting⟩ := hticked.quiet_others hquiet hord hne
      rcases h.awake other handle' (hsame.symm.trans hother) with hmem | hpos
      · cases List.mem_singleton.mp hmem
        exact absurd rfl hne
      · exact Nat.lt_of_lt_of_eq hpos hwaiting.symm

/-- A quiet frame leaves all clocks that run awake if and only if it is delivered. -/
theorem awake_iff (hquiet : Quiet react) :
    ∀ {tasks : List (FrameTask C)} {s : Stage T C W}, Serving now tasks s →
      ((after (serve react tasks) s).Awake ↔ Delivers react now tasks s)
  | [], s, h => by
      refine iff_of_true (Stage.awake_iff.mpr fun group handle hhand => ?_) trivial
      rcases h.awake group handle hhand with hmem | hpos
      · cases hmem
      · exact hpos
  | task :: rest, s, h => by
      obtain ⟨group, handle, rfl, -⟩ := h.owed task List.mem_cons_self
      unfold Delivers
      rcases serve_tick hquiet.mannerly h.linked.toOrderly h.time group rest with
        ⟨s', hrun, -, -, hserve⟩ | ⟨fault, s', hrun, -, hserve⟩
      · rw [after, hserve, hrun]
        exact awake_iff hquiet (h.tick hquiet hrun)
      · rw [after, hserve, hrun]
        refine (h.failed_iff hquiet hrun).trans (and_congr_right fun _ => ?_)
        constructor
        · rintro hwhole other tl ⟨⟩ htl
          exact hwhole tl htl
        · exact fun hwhole tl htl => hwhole group tl rfl htl

end Serving

/-! ## Runs -/

omit [TimeScalar T] in
theorem Awake.of_hands {s' : Stage T C W} (h : s.Awake) (queue : s'.queue = s.queue)
    (hands : ∀ group, s'.hand? group = s.hand? group) : s'.Awake := by
  refine awake_iff.mpr fun group handle hhand => ?_
  rw [hands] at hhand
  unfold waitingTicks
  rw [queue]
  exact awake_iff.mp h group handle hhand

omit [TimeScalar T] in
/-- No shift puts a clock to sleep. -/
theorem Awake.shift {s' : Stage T C W} (h : s.Awake) (hlinked : s.Linked) (hshift : s.Shift s') :
    s'.Awake := by
  cases hshift.change with
  | none queue hands => exact h.of_hands queue hands
  | @asked group running handle hand free queue hands =>
      refine awake_iff.mpr fun other handle' hhand => ?_
      rw [waitingTicks_request queue]
      by_cases hother : other = group
      · rw [if_pos hother]
        exact Nat.succ_pos _
      · rw [hands, if_neg hother] at hhand
        exact Nat.add_pos_left (awake_iff.mp h other handle' hhand) _
  | @dropped group running handle hand queue hands =>
      refine awake_iff.mpr fun other handle' hhand => ?_
      rw [hands] at hhand
      split at hhand
      · cases hhand
      · rename_i hother
        obtain ⟨handle'', he⟩ := waitingTicks_pos.mp (awake_iff.mp h other handle' hhand)
        refine waitingTicks_pos.mpr ⟨handle'', ?_⟩
        rw [queue]
        refine mem_waiting_dropped.mpr ⟨he, ?_⟩
        -- the handle that is given up is not that of another clock
        rintro rfl
        exact hother (hlinked.apart (hlinked.hand_of_mem he) hand)

theorem Linked.owing {timestamp : Option T} {frame : Opened T C W} (h : s.Linked)
    (hopen : s.opened? timestamp = some frame) : Owing frame.time frame.tasks frame.stage := by
  obtain ⟨hlinked, hnodup, howed⟩ := h.opened hopen
  obtain ⟨-, htime, -, hqueue, -⟩ := opened?_eq_some hopen
  refine ⟨hlinked, htime, hnodup, fun task htask => ?_⟩
  obtain ⟨group, handle, rfl, hhand⟩ := howed task htask
  refine ⟨group, _, rfl, hhand, ?_⟩
  unfold waitingTicks
  rw [hqueue]; rfl

theorem Linked.serving {timestamp : Option T} {frame : Opened T C W} (h : s.Linked)
    (hawake : s.Awake) (hopen : s.opened? timestamp = some frame) :
    Serving frame.time frame.tasks frame.stage := by
  refine ⟨h.owing hopen, fun group handle hhand => .inl ?_⟩
  obtain ⟨htasks, -, -, -, htimelines⟩ := opened?_eq_some hopen
  rw [hand?_congr htimelines] at hhand
  obtain ⟨handle', he⟩ := waitingTicks_pos.mp (awake_iff.mp hawake group handle hhand)
  rw [htasks]
  exact List.mem_map.mpr ⟨_, he, rfl⟩

variable [DecidableEq C]

theorem obey_linked_quiet (hquiet : Quiet react) (h : s.Linked) (call : Call T C) :
    (after (obey react call) s).Linked :=
  obey_linked hquiet.mannerly h call fun _ _ _ hopen => (h.owing hopen).punctual hquiet

/-- A call leaves all clocks that run awake if and only if the frame that it opens, if any, is
delivered. -/
theorem obey_awake_iff (hquiet : Quiet react) (h : s.Linked) (hawake : s.Awake)
    (call : Call T C) :
    (after (obey react call) s).Awake ↔
      ∀ timestamp frame, call = .step timestamp → s.opened? timestamp = some frame →
        Delivers react frame.time frame.tasks frame.stage := by
  by_cases hcall : ∃ timestamp, call = .step timestamp
  · obtain ⟨timestamp, rfl⟩ := hcall
    rw [after_step react h.manual]
    split
    · rename_i hclosed
      refine iff_of_true hawake fun timestamp' frame heq hopen => ?_
      cases heq
      rw [hclosed] at hopen
      cases hopen
    · rename_i frame hopen
      rw [(h.serving hawake hopen).awake_iff hquiet]
      constructor
      · intro hdelivers timestamp' frame' heq hopen'
        cases heq
        rw [hopen] at hopen'
        cases hopen'
        exact hdelivers
      · exact fun hdelivers => hdelivers timestamp frame rfl hopen
  · refine iff_of_true ?_ fun timestamp frame heq => absurd ⟨timestamp, heq⟩ hcall
    have hkeeps : (after (obey react call) s).Linked ∧ (after (obey react call) s).Awake := by
      refine obey_keeps (I := fun s : Stage T C W => s.Linked ∧ s.Awake) (fun _ h => h.1.manual)
        (fun _ _ h hshift => ⟨h.1.shift hshift, h.2.shift h.1 hshift⟩)
        (fun s group f h hf => ⟨h.1.resubscribed hf, ?_⟩) ⟨h, hawake⟩ call
        fun timestamp heq => hcall ⟨timestamp, heq⟩
      exact h.2.of_hands rfl (map_modifyTimeline s
        (f := fun tl => { tl with subscribers := f tl.subscribers }) (fun _ h => h) fun _ _ => rfl)
    exact hkeeps.2

/-- Where subscribers leave the clocks alone, all clocks that run are awake at all times if and
only if all frames are delivered. -/
theorem always_awake_iff (hquiet : Quiet react) (hidle : s.Idle) (calls : List (Call T C)) :
    Always Awake react calls s ↔
      EachFrame (fun frame => Delivers react frame.time frame.tasks frame.stage) react calls s := by
  have hawake : s.Awake := by
    intro group tl htl hrun
    have hhand := hidle.clocks group tl htl
    rw [Timeline.hand, hrun] at hhand
    cases hhand
  have hlinked := hidle.linked
  clear hidle
  induction calls generalizing s with
  | nil => exact iff_of_true hawake trivial
  | cons call rest ih =>
      have hcall := obey_awake_iff hquiet hlinked hawake call
      have hlinked' := obey_linked_quiet hquiet hlinked call
      refine (and_iff_right hawake).trans ?_
      constructor
      · intro halways
        have hawake' : (after (obey react call) s).Awake := by
          cases rest with
          | nil => exact halways
          | cons _ _ => exact halways.1
        exact ⟨hcall.mp hawake', (ih hawake' hlinked').mp halways⟩
      · rintro ⟨hfirst, hrest⟩
        exact (ih (hcall.mpr hfirst) hlinked').mpr hrest

/-- Callbacks that always fail. -/
def failing : React Rat Unit Unit := fun _ _ => throw (.callback "boom")

theorem failing_quiet : Quiet failing := fun _ _ _ => ⟨rfl, rfl⟩

/-- A subscriber that fails does not put its own clock to sleep. -/
theorem failing_awake :
    Always Awake failing [.subscribe "a" (), .start "a", .step none, .step (some 1)] pair := by
  refine (always_awake_iff failing_quiet pair_idle _).mpr ⟨?_, ?_, ?_, ?_, trivial⟩
  · rintro _ _ ⟨⟩
  · rintro _ _ ⟨⟩
  · rintro _ _ ⟨⟩ ⟨⟩
    refine ⟨rfl, ?_⟩
    rintro group tl ⟨⟩ ⟨⟩ ⟨-, fault, hfault⟩
    cases hfault
  · rintro _ _ ⟨⟩ ⟨⟩
    refine ⟨rfl, ?_⟩
    rintro group tl ⟨⟩ ⟨⟩ ⟨-, fault, hfault⟩
    cases hfault

/-- It puts the clock to sleep whose tick comes after its own. -/
theorem failing_asleep : Quiet failing ∧ pair.Idle ∧
    ¬ Always Awake failing [.subscribe "a" (), .start "a", .start "b", .step none] pair := by
  refine ⟨failing_quiet, pair_idle, ?_⟩
  rintro ⟨-, -, -, -, hawake⟩
  have hwaiting := awake_iff.mp hawake "b" (some 1) rfl
  exact absurd hwaiting (by decide +kernel)

end Stage

end Cuesheet
