import Cuesheet.Proofs.Stage.Requests
import Cuesheet.Stage.Frames

/-!
# What a tick comes to

`tick_ticked` says all that a tick can do to the stage: nothing if the clock is not there, letting go of
the handle if it is stopped, a break down of the arithmetic before anyone is told, or telling the
subscribers one after the other and asking for the next frame whether or not one of them failed.
-/

namespace Cuesheet.Stage

variable {T C W : Type} [TimeScalar T]

/-- Callbacks that start, stop and seek clocks at most. They may fail. -/
def Mannerly (react : React T C W) : Prop :=
  ∀ c notice (s : Stage T C W), s.Moves (after (react c notice) s)

/-- Callbacks that leave clocks and their requests alone. They may fail. -/
def Quiet (react : React T C W) : Prop :=
  ∀ c notice (s : Stage T C W), (after (react c notice) s).source = s.source ∧
    (after (react c notice) s).timelines = s.timelines

theorem Quiet.mannerly {react : React T C W} (h : Quiet react) : Mannerly react :=
  fun c notice s => .elsewhere .refl (h c notice s).1 (h c notice s).2

/-- The stage on which the subscribers of a clock are told its time. -/
def moving (s : Stage T C W) (group : String) (tl : Timeline T (Subscriber C)) (now : T)
    (frame : Int) : Stage T C W :=
  s.modifyTimeline group fun _ => { tl.moved now with frame }

/-- Telling the subscribers of a clock the time of a frame. -/
def telling (react : React T C W) (s : Stage T C W) (group : String)
    (tl : Timeline T (Subscriber C)) (now : T) (frame : Int) :
    EStateM.Result (StageFault T) (Stage T C W) Unit :=
  tick.hearEach (hear react) (tl.moved now).time tl.subscribers (s.moving group tl now frame)

/-- What every callback does to the stage, all of them do one after the other, up to the first one
that fails. -/
theorem hearEach_rel {react : React T C W} {R : Stage T C W → Stage T C W → Prop}
    (refl : ∀ s, R s s) (trans : ∀ {s s₁ s₂}, R s s₁ → R s₁ s₂ → R s s₂)
    (hreact : ∀ c notice s, R s (after (react c notice) s)) (time : T) :
    ∀ (subscribers : List (Subscriber C)) (s : Stage T C W),
      (∀ sub ∈ subscribers, ∃ c, sub = .call c) →
        R s (after (tick.hearEach (hear react) time subscribers) s)
  | [], s, _ => refl s
  | sub :: rest, s, hcalls => by
      obtain ⟨c, rfl⟩ := hcalls sub List.mem_cons_self
      have hfirst := hreact c (.tick time) s
      cases hhear : react c (.tick time) s with
      | error fault s₁ =>
          have heach : tick.hearEach (hear react) time (.call c :: rest) s = .error fault s₁ :=
            bind_error hhear _
          rw [after, heach]
          rwa [after, hhear] at hfirst
      | ok _ s₁ =>
          have heach : tick.hearEach (hear react) time (.call c :: rest) s =
              tick.hearEach (hear react) time rest s₁ := bind_ok hhear _
          rw [after, hhear] at hfirst
          rw [after, heach]
          exact trans hfirst (hearEach_rel refl trans hreact time rest s₁ fun sub hsub =>
            hcalls sub (List.mem_cons_of_mem _ hsub))

theorem telling_moves {react : React T C W} (hreact : Mannerly react) {s : Stage T C W}
    (h : s.Orderly) {group : String} {tl : Timeline T (Subscriber C)}
    (htl : s.timeline? group = some tl) (now : T) (frame : Int) :
    (s.moving group tl now frame).Moves (left (telling react s group tl now frame)) :=
  hearEach_rel (R := Moves) (fun _ => .refl) Moves.trans hreact _ tl.subscribers _ (h.calls htl)

theorem telling_quiet {react : React T C W} (hreact : Quiet react) {s : Stage T C W}
    (h : s.Orderly) {group : String} {tl : Timeline T (Subscriber C)}
    (htl : s.timeline? group = some tl) (now : T) (frame : Int) :
    (left (telling react s group tl now frame)).source = s.source ∧
      (left (telling react s group tl now frame)).timelines =
        (s.moving group tl now frame).timelines :=
  hearEach_rel (R := fun s s' => s'.source = s.source ∧ s'.timelines = s.timelines)
    (fun _ => ⟨rfl, rfl⟩) (fun h h' => ⟨h'.1.trans h.1, h'.2.trans h.2⟩) hreact _ tl.subscribers
    (s.moving group tl now frame) (h.calls htl)

/-! ## A clock that moves lets go of its handle -/

omit [TimeScalar T] in
theorem serves_modifyTimeline {s : Stage T C W} {group : String} {tl : Timeline T (Subscriber C)}
    (htl : s.timeline? group = some tl)
    {f : Timeline T (Subscriber C) → Timeline T (Subscriber C)} {running : Bool}
    (hf : ∀ tl, tl.id = group → (f tl).id = group) (hhand : (f tl).hand = (running, none))
    (hsubs : (f tl).subscribers = tl.subscribers) :
    Serves group running s (s.modifyTimeline group f) := by
  refine ⟨rfl, map_modifyTimeline s hf fun tl' h => ?_, fun other => ?_⟩
  · obtain rfl := Option.some.inj (htl.symm.trans h)
    exact hsubs
  · rw [hand?_modifyTimeline htl hf, hhand]

theorem serves_moving {s : Stage T C W} {group : String} {tl : Timeline T (Subscriber C)}
    (htl : s.timeline? group = some tl) (now : T) (frame : Int) :
    Serves group (tl.moved now).running s (s.moving group tl now frame) := by
  have hid : tl.id = group := timeline?_id htl
  exact serves_modifyTimeline htl (fun _ _ => hid) rfl rfl

theorem Orderly.moves {s s' : Stage T C W} (h : s.Orderly) (hmoves : s.Moves s') : s'.Orderly :=
  hmoves.keeps (fun _ h => h.manual) (fun _ _ h hshift => h.shift hshift) h

theorem Linked.moves {s s' : Stage T C W} (h : s.Linked) (hmoves : s.Moves s') : s'.Linked :=
  hmoves.keeps (fun _ h => h.manual) (fun _ _ h hshift => h.shift hshift) h

/-- The outcomes of a tick. -/
inductive Ticked (react : React T C W) (group : String) (now : T) (s : Stage T C W) :
    EStateM.Result (StageFault T) (Stage T C W) Unit → Prop
  | absent (none : s.timeline? group = none) : Ticked react group now s (.ok () s)
  | stopped {tl : Timeline T (Subscriber C)} {s' : Stage T C W}
      (clock : s.timeline? group = some tl) (running : tl.running = false)
      (serves : Serves group false s s') (outside : s'.outside = s.outside) :
      Ticked react group now s (.ok () s')
  | broken {tl : Timeline T (Subscriber C)} {fault : ArithFault} {s' : Stage T C W}
      (clock : s.timeline? group = some tl) (running : tl.running = true)
      (number : (tl.moved now).frameNumber = .error fault)
      (serves : Serves group (tl.moved now).running s s') (outside : s'.outside = s.outside) :
      Ticked react group now s (.error (.clock (.arith fault)) s')
  | told {tl : Timeline T (Subscriber C)} {frame : Int} {s' : Stage T C W}
      (clock : s.timeline? group = some tl) (running : tl.running = true)
      (number : (tl.moved now).frameNumber = .ok frame)
      (renewed : renew group (left (telling react s group tl now frame)) = .ok () s') :
      Ticked react group now s (leaving (telling react s group tl now frame) s')

omit [TimeScalar T] in
theorem ensuring_ok {act last : Action T C W Unit} {s s' : Stage T C W}
    (h : last (left (act s)) = .ok () s') : ensuring act last s = leaving (act s) s' := by
  unfold ensuring
  cases hact : act s with
  | ok _ s₁ => rw [hact] at h; exact h
  | error fault s₁ =>
      rw [hact] at h
      dsimp only [left] at h ⊢
      rw [h]; rfl

/-- What a tick of a clock that is stopped comes to. -/
theorem tick_stopped {hear : Subscriber C → T → Action T C W Unit} {s : Stage T C W}
    {group : String} {tl : Timeline T (Subscriber C)} (htl : s.timeline? group = some tl)
    (hstopped : tl.running = false) (now : T) :
    tick hear group now s =
      .ok () (s.modifyTimeline group fun tl => { tl with handle := none }) := by
  refine (lookup_some htl _ _).trans ?_
  rw [if_neg (ne_true_of_eq_false hstopped)]
  rfl

/-- What a tick of a clock that runs comes to. -/
theorem tick_running {hear : Subscriber C → T → Action T C W Unit} {s : Stage T C W}
    {group : String} {tl : Timeline T (Subscriber C)} (htl : s.timeline? group = some tl)
    (hrun : tl.running = true) (now : T) :
    tick hear group now s =
      match (tl.moved now).frameNumber with
      | .error fault =>
        .error (.clock (.arith fault)) (s.modifyTimeline group fun _ => tl.moved now)
      | .ok frame =>
        ensuring (tick.hearEach hear (tl.moved now).time tl.subscribers) (renew group)
          (s.moving group tl now frame) := by
  refine (lookup_some htl _ _).trans ?_
  rw [if_pos hrun]
  refine (bind_ok rfl _).trans ?_
  cases (tl.moved now).frameNumber with
  | error fault => rfl
  | ok frame =>
      refine (bind_ok rfl _).trans ((bind_ok rfl _).trans ?_)
      have hid : tl.id = group := timeline?_id htl
      exact congrArg (ensuring _ _) (modifyTimeline_modifyTimeline s fun _ _ => hid)

theorem tick_ticked {react : React T C W} (hreact : Mannerly react) {s : Stage T C W}
    (h : s.Orderly) (group : String) (now : T) :
    Ticked react group now s (tick (hear react) group now s) := by
  cases htl : s.timeline? group with
  | none =>
      have htick : tick (hear react) group now s = .ok () s := lookup_none htl ..
      rw [htick]
      exact .absent htl
  | some tl =>
      cases hrun : tl.running with
      | false =>
          rw [tick_stopped htl hrun]
          refine .stopped htl hrun (serves_modifyTimeline htl (fun _ h => h) ?_ rfl) rfl
          rw [Timeline.hand, hrun]
      | true =>
          rw [tick_running htl hrun]
          cases hnumber : (tl.moved now).frameNumber with
          | error fault =>
              have hid : tl.id = group := timeline?_id htl
              exact .broken htl hrun hnumber
                (serves_modifyTimeline htl (fun _ _ => hid) rfl rfl) rfl
          | ok frame =>
              have hmoves := telling_moves hreact h htl now frame
              have hord := (h.serves (serves_moving htl now frame)).moves hmoves
              obtain ⟨s', hrenew, -⟩ := renew_asks hord.manual group
              dsimp only
              rw [ensuring_ok hrenew]
              exact .told htl hrun hnumber hrenew

variable {react : React T C W} {group : String} {now : T} {s : Stage T C W}
  {r : EStateM.Result (StageFault T) (Stage T C W) Unit}

/-- What holds once a clock has let go of its handle, and what every shift keeps, holds after its
tick. -/
theorem Ticked.keeps (h : Ticked react group now s r) {I : Stage T C W → Prop}
    (hreact : Mannerly react) (hmanual : ∀ s, I s → s.Manual)
    (hshift : ∀ s s', I s → s.Shift s' → I s') (hord : s.Orderly) (hs : I s)
    (hserves : ∀ running s', Serves group running s s' → I s') : I (left r) := by
  cases h with
  | absent _ => exact hs
  | stopped _ _ serves _ => exact hserves _ _ serves
  | broken _ _ _ serves _ => exact hserves _ _ serves
  | @told tl frame s' clock running number renewed =>
      rw [left_leaving]
      have hmoves := telling_moves hreact hord clock now frame
      have hheard := hmoves.keeps hmanual hshift (hserves _ _ (serves_moving clock now frame))
      exact hshift _ _ hheard (renew_shift (hmanual _ hheard) renewed)

theorem Ticked.orderly (h : Ticked react group now s r) (hreact : Mannerly react)
    (hord : s.Orderly) : (left r).Orderly :=
  h.keeps hreact (fun _ h => h.manual) (fun _ _ h hshift => h.shift hshift) hord hord
    fun _ _ hserves => hord.serves hserves

theorem Ticked.linked (h : Ticked react group now s r) (hreact : Mannerly react)
    (hlinked : s.Linked) (hnone : ∀ handle, (handle, .tick group) ∉ s.queue.waiting) :
    (left r).Linked :=
  h.keeps hreact (fun _ h => h.manual) (fun _ _ h hshift => h.shift hshift) hlinked.toOrderly
    hlinked fun _ _ hserves => hlinked.serves hserves hnone

/-! ## Serving -/

theorem serve_cons {task : FrameTask C} {rest : List (FrameTask C)}
    (h : s.source.now? = some now) :
    serve react (task :: rest) s = (runTask react task now >>= fun _ => serve react rest) s := by
  rw [serve, get_bind, h]

end Cuesheet.Stage
