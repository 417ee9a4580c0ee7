import Cuesheet.Proofs.Stage.Telling

/-!
# How often a clock ticks in a frame

A clock that is stopped and started again in the middle of a frame, before its own tick is served,
has two ticks to come: the one of this frame, and the one it has just asked for. The first one
makes it forget the handle of the second, which is `Orphaned` then, so that it asks for a third.
`always_tidy_iff` says that this is the only way in which a clock comes to wait for two frames, or
to wait while it is stopped: as long as all frames are punctual the stage is tidy, whenever anyone
looks at it, and everyone is told once; and the first frame that is not leaves the stage untidy if
it is delivered to its end.
-/

namespace Cuesheet.Stage

variable {T C W : Type} {s s' : Stage T C W} {group : String} {handle : Nat}

/-! ## Requests that are lost -/

/-- A request waits for a tick of a clock, and no clock holds it. If the clock holds a handle
nevertheless, it is that of another request that waits. -/
structure Orphaned (group : String) (handle : Nat) (s : Stage T C W) : Prop extends Orderly s where
  waits : (handle, .tick group) ∈ s.queue.waiting
  lost : ∀ {other : String} {running : Bool}, s.hand? other ≠ some (running, some handle)
  own : ∀ {running : Bool} {handle' : Nat}, s.hand? group = some (running, some handle') →
    (handle', .tick group) ∈ s.queue.waiting
  known : s.hand? group ≠ none

/-- Besides, the clock holds a handle if it runs. -/
structure Doubled (group : String) (handle : Nat) (s : Stage T C W) : Prop
    extends Orphaned group handle s where
  busy : s.hand? group ≠ some (true, none)

namespace Orphaned

theorem of_hands (h : Orphaned group handle s) (horderly : s'.Orderly)
    (queue : s'.queue = s.queue) (hands : ∀ group, s'.hand? group = s.hand? group) :
    Orphaned group handle s' := by
  refine ⟨horderly, by rw [queue]; exact h.waits, ?_, ?_, by rw [hands]; exact h.known⟩
  · intro other running
    rw [hands]
    exact h.lost
  · intro running handle' hhand
    rw [hands] at hhand
    rw [queue]
    exact h.own hhand

/-- A request that is lost is given up by nobody. -/
theorem shift (h : Orphaned group handle s) (hshift : s.Shift s') : Orphaned group handle s' := by
  have horderly := h.toOrderly.shift hshift
  cases hshift.change with
  | none queue hands => exact h.of_hands horderly queue hands
  | @asked asking running _ hand free queue hands =>
      have hwaiting : s'.queue.waiting = s.queue.waiting ++ [(s.queue.nextHandle, .tick asking)] := by
        rw [queue]; rfl
      refine ⟨horderly, ?_, ?_, ?_, ?_⟩
      · rw [hwaiting]
        exact List.mem_append_left _ h.waits
      · intro other running' hother
        rw [hands] at hother
        split at hother
        · cases hother
          exact absurd rfl (Nat.ne_of_lt (h.issued _ h.waits))
        · exact h.lost hother
      · intro running' handle' hhand
        rw [hands] at hhand
        rw [hwaiting]
        split at hhand
        · rename_i hasking
          cases hhand
          rw [hasking]
          exact List.mem_append_right _ (List.mem_singleton_self _)
        · exact List.mem_append_left _ (h.own hhand)
      · rw [hands]
        split
        · exact fun hnone => nomatch hnone
        · exact h.known
  | @dropped dropping running dropped hand queue hands =>
      have hdropped : ∀ {e : Nat × FrameTask C}, e ∈ s'.queue.waiting ↔
          e ∈ s.queue.waiting ∧ dropped ≠ some e.1 := by
        intro e
        rw [queue]
        exact mem_waiting_dropped
      refine ⟨horderly, ?_, ?_, ?_, ?_⟩
      · refine hdropped.mpr ⟨h.waits, ?_⟩
        rintro rfl
        exact h.lost hand
      · intro other running' hother
        rw [hands] at hother
        split at hother
        · cases hother
        · exact h.lost hother
      · intro running' handle' hhand
        rw [hands] at hhand
        split at hhand
        · cases hhand
        · rename_i hne
          refine hdropped.mpr ⟨h.own hhand, ?_⟩
          rintro rfl
          exact hne (h.apart hhand hand)
      · rw [hands]
        split
        · exact fun hnone => nomatch hnone
        · exact h.known

/-- Nor is it found again when another clock is served. -/
theorem serves (h : Orphaned group handle s) {served : String} {running : Bool}
    (hserves : Serves served running s s') (hne : group ≠ served) : Orphaned group handle s' := by
  have hqueue := queue_congr hserves.source
  have hhand : s'.hand? group = s.hand? group := (hserves.hands group).trans (if_neg hne)
  refine ⟨h.toOrderly.serves hserves, by rw [hqueue]; exact h.waits, ?_, ?_, ?_⟩
  · exact fun hother => h.lost (hserves.hand_of_some hother).2
  · intro running' handle' hown
    rw [hqueue]
    exact h.own (hhand.symm.trans hown)
  · rw [hhand]
    exact h.known

end Orphaned

/-- A clock that is served while a request of it waits loses this request. -/
theorem Linked.orphaned (h : s.Linked) {running : Bool} (hserves : Serves group running s s')
    (hwaits : (handle, .tick group) ∈ s.queue.waiting) : Orphaned group handle s' := by
  have hown : s'.hand? group = some (running, none) := (hserves.hands group).trans (if_pos rfl)
  refine ⟨h.toOrderly.serves hserves, by rw [queue_congr hserves.source]; exact hwaits, ?_, ?_, ?_⟩
  · intro other running' hother
    obtain ⟨hne, hhand⟩ := hserves.hand_of_some hother
    exact hne (h.apart hhand (h.hand_of_mem hwaits))
  · intro running' handle' hhand
    rw [hown] at hhand
    cases hhand
  · rw [hown]
    exact fun hnone => nomatch hnone

namespace Doubled

theorem shift (h : Doubled group handle s) (hshift : s.Shift s') : Doubled group handle s' := by
  refine ⟨h.toOrphaned.shift hshift, ?_⟩
  cases hshift.change with
  | none queue hands =>
      rw [hands]
      exact h.busy
  | asked hand free queue hands =>
      rw [hands]
      split
      · exact fun heq => nomatch heq
      · exact h.busy
  | dropped hand queue hands =>
      rw [hands]
      split
      · exact fun heq => nomatch heq
      · exact h.busy

theorem serves (h : Doubled group handle s) {served : String} {running : Bool}
    (hserves : Serves served running s s') (hne : group ≠ served) : Doubled group handle s' := by
  refine ⟨h.toOrphaned.serves hserves hne, ?_⟩
  rw [hserves.hands, if_neg hne]
  exact h.busy

/-- Either the clock has two requests that wait, or it has one and is stopped. -/
theorem not_tidy (h : Doubled group handle s) : ¬ s.Tidy := by
  intro htidy
  obtain ⟨⟨running, held⟩, hhand⟩ := Option.ne_none_iff_exists'.mp h.known
  obtain ⟨tl, htl, heq⟩ := Option.map_eq_some_iff.mp hhand
  obtain ⟨hrunning, hheld⟩ := Prod.mk.inj heq
  obtain ⟨hone, hstopped⟩ := htidy group tl htl
  have hpos : 0 < s.waitingTicks group := waitingTicks_pos.mpr ⟨handle, h.waits⟩
  cases running with
  | false => exact absurd (hstopped hrunning) (Nat.ne_of_gt hpos)
  | true =>
      cases held with
      | none => exact h.busy hhand
      | some handle' =>
          have hne : handle' ≠ handle := by
            rintro rfl
            exact h.lost hhand
          exact absurd hone (Nat.not_le.mpr (two_le_waitingTicks hne (h.own hhand) h.waits))

end Doubled

/-! ## Frames that are not punctual -/

variable [TimeScalar T] {react : React T C W} {now : T}

/-- A clock whose tick is served although it has asked for another one has two requests
afterwards, unless it is stopped meanwhile. -/
theorem Ticked.doubled {r : EStateM.Result (StageFault T) (Stage T C W) Unit}
    (h : Ticked react group now s r) (hreact : Mannerly react) (hlinked : s.Linked)
    (hwaits : (handle, .tick group) ∈ s.queue.waiting) (hr : ∃ s', r = .ok () s') :
    Doubled group handle (left r) := by
  have hhand := hlinked.hand_of_mem hwaits
  cases h with
  | absent none =>
      unfold hand? at hhand
      rw [none] at hhand
      cases hhand
  | stopped clock running serves _ =>
      rw [hand?_of_timeline? clock, running] at hhand
      cases hhand
  | broken clock running number serves _ =>
      obtain ⟨s', hr⟩ := hr
      cases hr
  | @told tl frame s' clock running number renewed =>
      rw [left_leaving]
      have hmoves := telling_moves hreact hlinked.toOrderly clock now frame
      have horphaned := hmoves.keeps (I := Orphaned group handle) (fun _ h => h.manual)
        (fun _ _ h hshift => h.shift hshift) (hlinked.orphaned (serves_moving clock now frame) hwaits)
      refine ⟨horphaned.shift (renew_shift horphaned.manual renewed), ?_⟩
      obtain ⟨s₁, hrenew, hcases⟩ := renew_asks horphaned.manual group
      rw [renewed] at hrenew
      cases hrenew
      rcases hcases with ⟨rfl, hbusy⟩ | ⟨-, hasks⟩
      · exact hbusy
      · rw [hasks.hands, if_pos rfl]
        exact fun heq => nomatch heq

/-- The rest of the frame does not mend it. -/
theorem Doubled.serve (h : Doubled group handle s) (hreact : Mannerly react)
    (hnow : s.source.now? = some now) {tasks : List (FrameTask C)}
    (htasks : ∀ task ∈ tasks, ∃ other, task = .tick other ∧ group ≠ other) :
    Doubled group handle (after (Stage.serve react tasks) s) := by
  have hserved : Doubled group handle (after (Stage.serve react tasks) s) ∧
      (after (Stage.serve react tasks) s).source.now? = some now := by
    refine serve_keeps (I := fun s => Doubled group handle s ∧ s.source.now? = some now)
      (fun _ h => h.2) ⟨h, hnow⟩ fun task htask s' ⟨hdoubled, hnow'⟩ => ?_
    obtain ⟨other, rfl, hne⟩ := htasks task htask
    have hord := hdoubled.toOrderly
    refine ⟨?_, tick_now hreact hord other now hnow'⟩
    exact (tick_ticked hreact hord other now).keeps hreact (fun _ h => h.manual)
      (fun _ _ h hshift => h.shift hshift) hord hdoubled fun _ _ hserves =>
        hdoubled.serves hserves hne
  exact hserved.1

/-- A frame that is delivered to its end and leaves the stage tidy is punctual. -/
theorem punctual_of_tidy (hreact : Mannerly react) :
    ∀ {tasks : List (FrameTask C)} {s s' : Stage T C W}, s.Linked → s.source.now? = some now →
      (∀ task ∈ tasks, ∃ group, task = .tick group) → tasks.Nodup →
        Stage.serve react tasks s = .ok () s' → s'.Tidy → Punctual react now tasks s
  | [], _, _, _, _, _, _, _, _ => trivial
  | task :: rest, s, s', h, hnow, htasks, hnodup, hserve, htidy => by
      obtain ⟨group, rfl⟩ := htasks task List.mem_cons_self
      obtain ⟨hnotin, hnodup'⟩ := List.nodup_cons.mp hnodup
      have hrest : ∀ task ∈ rest, ∃ group, task = .tick group := fun task htask =>
        htasks task (List.mem_cons_of_mem _ htask)
      rcases serve_tick hreact h.toOrderly hnow group rest with
        ⟨s₁, hrun, hticked, hnow', hcons⟩ | ⟨fault, s₁, hrun, hticked, hcons⟩
      · rw [hcons] at hserve
        by_cases hlate : .tick group ∈ s.queue.tasks
        · obtain ⟨⟨handle, _⟩, hwaits, rfl⟩ := List.mem_map.mp hlate
          have hdoubled : Doubled group handle s₁ := hticked.doubled hreact h hwaits ⟨s₁, rfl⟩
          have hend := hdoubled.serve hreact hnow' fun task htask => by
            obtain ⟨other, rfl⟩ := hrest task htask
            exact ⟨other, rfl, fun heq => hnotin (heq ▸ htask)⟩
          rw [after, hserve] at hend
          exact absurd htidy hend.not_tidy
        · have hlinked : s₁.Linked := hticked.linked hreact h (notMem_tasks.mp hlate)
          refine ⟨hlate, fun s₂ hrun₂ => ?_⟩
          rw [hrun] at hrun₂
          cases hrun₂
          exact punctual_of_tidy hreact hlinked hnow' hrest hnodup' hserve htidy
      · rw [hcons] at hserve
        cases hserve

/-! ## Runs -/

/-- A frame that tells the time to nobody twice, and to nobody who then finds two requests of a
clock, or one of a clock that is stopped, whatever they have done to the clocks by then. -/
structure Fair (react : React T C W) (frame : Opened T C W) : Prop where
  once : ∀ group subscribers, frame.stage.subscribers? group = some subscribers →
    ((told react frame.time frame.tasks frame.stage).filter (·.group == group)).map
      Telling.subscriber <+: subscribers
  tidy : ∀ t ∈ told react frame.time frame.tasks frame.stage, ∀ s', t.stage.Moves s' → s'.Tidy

/-- A frame that is delivered without a failure. -/
def Returns (react : React T C W) (frame : Opened T C W) : Prop :=
  ∃ s', Stage.serve react frame.tasks frame.stage = .ok () s'

/-- A punctual frame of a linked stage. -/
theorem Linked.fair (h : s.Linked) (hreact : Mannerly react) {timestamp : Option T}
    {frame : Opened T C W} (hopen : s.opened? timestamp = some frame)
    (hpunctual : Punctual react frame.time frame.tasks frame.stage) : Fair react frame := by
  obtain ⟨hlinked, hnodup, -⟩ := h.opened hopen
  have htasks := h.opened_ticks hopen
  refine ⟨fun group subscribers hsubs => ?_, fun t ht s' hmoves => ?_⟩
  · exact told_prefix hreact hlinked.toOrderly htasks hnodup hsubs
  · have htold := told_linked hreact hlinked htasks hpunctual t ht
    exact (htold.moves hmoves).tidy

variable [DecidableEq C]

theorem always_head {P : Stage T C W → Prop} {calls : List (Call T C)}
    (h : Always P react calls s) : P s := by
  cases calls with
  | nil => exact h
  | cons call rest => exact h.1

/-- As long as all frames are punctual all is well, even if some of them fail. -/
theorem Linked.always_tidy (hreact : Mannerly react) :
    ∀ {calls : List (Call T C)} {s : Stage T C W}, s.Linked →
      EachFrame (fun frame => Punctual react frame.time frame.tasks frame.stage) react calls s →
        Always Tidy react calls s ∧ EachFrame (Fair react) react calls s
  | [], _, h, _ => ⟨h.tidy, trivial⟩
  | call :: rest, s, h, ⟨hfirst, hrest⟩ => by
      obtain ⟨htidy, hfair⟩ := always_tidy hreact (obey_linked hreact h call hfirst) hrest
      refine ⟨⟨h.tidy, htidy⟩, fun timestamp frame hcall hopen => ?_, hfair⟩
      exact h.fair hreact hopen (hfirst timestamp frame hcall hopen)

/-- A tidy run whose frames do not fail is punctual. -/
theorem Linked.each_punctual (hreact : Mannerly react) :
    ∀ {calls : List (Call T C)} {s : Stage T C W}, s.Linked →
      EachFrame (Returns react) react calls s → Always Tidy react calls s →
        EachFrame (fun frame => Punctual react frame.time frame.tasks frame.stage) react calls s
  | [], _, _, _, _ => trivial
  | call :: rest, s, h, ⟨hreturns, hreturns'⟩, ⟨_, htidy⟩ => by
      have hfirst : ∀ timestamp frame, call = .step timestamp → s.opened? timestamp = some frame →
          Punctual react frame.time frame.tasks frame.stage := by
        intro timestamp frame hcall hopen
        obtain ⟨s', hserve⟩ := hreturns timestamp frame hcall hopen
        obtain ⟨hlinked, hnodup, -⟩ := h.opened hopen
        obtain ⟨-, hnow, -⟩ := opened?_eq_some hopen
        have hafter := always_head htidy
        rw [hcall, after_step react h.manual, hopen] at hafter
        dsimp only at hafter
        rw [after, hserve] at hafter
        exact punctual_of_tidy hreact hlinked hnow (h.opened_ticks hopen) hnodup hserve hafter
      exact ⟨hfirst, each_punctual hreact (obey_linked hreact h call hfirst) hreturns' htidy⟩

/-- Where subscribers start, stop and seek clocks, every clock ticks once in a frame and never
waits twice if all frames are punctual; and if no frame fails, only then. -/
theorem always_tidy_iff (hreact : Mannerly react) (hidle : s.Idle) (calls : List (Call T C)) :
    (EachFrame (fun frame => Punctual react frame.time frame.tasks frame.stage) react calls s →
      Always Tidy react calls s ∧ EachFrame (Fair react) react calls s) ∧
    (EachFrame (Returns react) react calls s →
      Always Tidy react calls s ∧ EachFrame (Fair react) react calls s →
        EachFrame (fun frame => Punctual react frame.time frame.tasks frame.stage) react calls s) :=
  ⟨hidle.linked.always_tidy hreact, fun hreturns h =>
    hidle.linked.each_punctual hreact hreturns h.1⟩

/-- Callbacks that stop a clock and start it again. -/
def restarting (group : String) : React Rat Unit Unit := fun _ _ => do
  stop group
  start group

theorem restarting_mannerly (group : String) : Mannerly (restarting group) := by
  intro c notice s
  obtain ⟨s₁, hstop, -⟩ := stop_shift s group
  have hrestart : restarting group c notice s = start group s₁ := bind_ok hstop _
  have hstopped : after (stop group) s = s₁ := by rw [after, hstop]; rfl
  rw [after, hrestart, ← hstopped]
  exact .start (.stop .refl group) group

/-- A clock may be stopped and started again once it has been ticked. -/
theorem restarting_tidy :
    let calls : List (Call Rat Unit) :=
      [.subscribe "b" (), .start "a", .start "b", .step none, .step (some 1)]
    Always Tidy (restarting "a") calls pair ∧
      EachFrame (Fair (restarting "a")) (restarting "a") calls pair := by
  refine (always_tidy_iff (restarting_mannerly "a") pair_idle _).1 ⟨?_, ?_, ?_, ?_, ?_, trivial⟩
  · rintro _ _ ⟨⟩
  · rintro _ _ ⟨⟩
  · rintro _ _ ⟨⟩
  · rintro _ _ ⟨⟩ ⟨⟩
    refine ⟨by decide +kernel, ?_⟩
    rintro _ ⟨⟩
    refine ⟨by decide +kernel, ?_⟩
    rintro _ ⟨⟩
    trivial
  · rintro _ _ ⟨⟩ ⟨⟩
    refine ⟨by decide +kernel, ?_⟩
    rintro _ ⟨⟩
    refine ⟨by decide +kernel, ?_⟩
    rintro _ ⟨⟩
    trivial

/-- If it is stopped and started again before, it waits for two frames. -/
theorem restarting_untidy :
    let calls : List (Call Rat Unit) := [.subscribe "a" (), .start "a", .start "b", .step none]
    Mannerly (restarting "b") ∧ pair.Idle ∧
      EachFrame (Returns (restarting "b")) (restarting "b") calls pair ∧
        ¬ Always Tidy (restarting "b") calls pair := by
  refine ⟨restarting_mannerly "b", pair_idle, ⟨?_, ?_, ?_, ?_, trivial⟩, ?_⟩
  · rintro _ _ ⟨⟩
  · rintro _ _ ⟨⟩
  · rintro _ _ ⟨⟩
  · rintro _ _ ⟨⟩ ⟨⟩
    exact ⟨_, rfl⟩
  · rintro ⟨-, -, -, -, htidy⟩
    obtain ⟨hone, -⟩ := htidy "b" _ rfl
    exact absurd hone (by decide +kernel)

end Cuesheet.Stage
