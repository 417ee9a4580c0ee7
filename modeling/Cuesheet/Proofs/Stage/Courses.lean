import Cuesheet.Proofs.Stage.Hosting

/-!
# The course of clocks

Starting and stopping a clock, ticking it and asking for its next frame change neither who
subscribes to it nor what it was made with (`Timeline.terms`). What depends on no more of clocks
than that is kept by all of them (`Steady`). All but the tick leave a clock where it is, too
(`Timeline.Rests`), and keep what depends on that as well (`Calm`); mounting and unmounting do so if
it does not depend on who subscribes either (`Hospitable`).
-/

namespace Cuesheet

/-- What a clock is made with, once and for all. -/
structure Terms where
  fps : Number
  mode : ClockMode
  loop : Bool

variable {T S C W : Type}

def Timeline.terms (tl : Timeline T S) : Terms := ⟨tl.fps, tl.mode, tl.loop⟩

/-- A clock that was started or stopped, or that asked for a frame, is where it was and as it was
made. When its last frame was may be forgotten. -/
structure Timeline.Rests (tl tl' : Timeline T S) : Prop where
  id : tl'.id = tl.id
  subscribers : tl'.subscribers = tl.subscribers
  terms : tl'.terms = tl.terms
  time : tl'.time = tl.time
  frame : tl'.frame = tl.frame
  last : tl'.lastTimestamp = tl.lastTimestamp ∨ tl'.lastTimestamp = none

namespace Stage

variable {react : React T C W} {I : Stage T C W → Prop} {group : String} {s s' : Stage T C W}

/-! ## Clocks that rest -/

/-- It depends neither on requests nor on whether clocks run. -/
structure Calm (I : Stage T C W → Prop) : Prop where
  source : ∀ s source, I s → I { s with source }
  rests : ∀ (s : Stage T C W) group (f : Timeline T (Subscriber C) → Timeline T (Subscriber C)),
    (∀ tl : Timeline T (Subscriber C), tl.Rests (f tl)) → I s → I (s.modifyTimeline group f)

namespace Calm

variable (h : Calm I)
include h

theorem stop (group : String) : Goes I (Stage.stop group) := by
  refine .bind .get fun s => ?_
  split
  · exact .pure ()
  · rename_i tl _
    refine .bind ?_ fun _ =>
      .change fun s => h.rests s group _ fun _ => ⟨rfl, rfl, rfl, rfl, rfl, .inr rfl⟩
    cases tl.handle with
    | none => exact .pure ()
    | some handle => exact .change fun s => h.source s _

variable [TimeScalar T]

theorem request (task : FrameTask C) : Keeps I (Stage.request task) := by
  refine .bind .get fun s => ?_
  split
  · exact .throw _
  · exact .bind (.change fun s => h.source s _) fun _ => .pure _

/-- A clock that has got a frame remembers by which handle. -/
theorem requested (group : String) : Keeps I (do
    let handle ← Stage.request (.tick group)
    modify fun s => s.modifyTimeline group fun tl => { tl with handle := some handle } :
      Action T C W Unit) :=
  .bind (h.request _) fun _ =>
    .change fun s => h.rests s group _ fun _ => ⟨rfl, rfl, rfl, rfl, rfl, .inl rfl⟩

theorem start (group : String) : Keeps I (Stage.start group) := by
  refine .bind .get fun s => ?_
  split
  · exact .pure ()
  · split
    · exact .pure ()
    · refine .bind (.change fun s => ?_) fun _ => h.requested group
      exact h.rests s group _ fun _ => ⟨rfl, rfl, rfl, rfl, rfl, .inr rfl⟩

theorem renew (group : String) : Keeps I (Stage.renew group) := by
  refine .bind .get fun s => ?_
  split
  · exact .pure ()
  · split
    · exact h.requested group
    · exact .pure ()

end Calm

/-! ## Clocks that move -/

/-- It depends neither on requests, nor on anything of a clock but who subscribes and what the clock
was made with. -/
structure Steady (I : Stage T C W → Prop) : Prop where
  source : ∀ s source, I s → I { s with source }
  clock : ∀ (s : Stage T C W) group (f : Timeline T (Subscriber C) → Timeline T (Subscriber C)),
    (∀ tl, tl.id = group → (f tl).id = group) →
      (∀ tl, s.timeline? group = some tl → (f tl).subscribers = tl.subscribers) →
        (∀ tl, s.timeline? group = some tl → (f tl).terms = tl.terms) →
          I s → I (s.modifyTimeline group f)

namespace Steady

variable (h : Steady I)
include h

theorem calm : Calm I where
  source := h.source
  rests s group f hf := h.clock s group f (fun tl hid => (hf tl).id.trans hid)
    (fun tl _ => (hf tl).subscribers) fun tl _ => (hf tl).terms

variable [TimeScalar T]

/-- What is kept by whoever is told the time is kept by a tick. -/
theorem tick (hhear : ∀ subscriber time, Keeps I (Stage.hear react subscriber time))
    (group : String) (now : T) : Keeps I (Stage.tick (hear react) group now) := by
  intro s hs
  cases htl : s.timeline? group with
  | none =>
      have htick : Stage.tick (hear react) group now s = .ok () s := lookup_none htl ..
      rw [after, htick]
      exact hs
  | some tl =>
      have hid : tl.id = group := timeline?_id htl
      have hsame {α : Type} {part : Timeline T (Subscriber C) → α} {f : Timeline T (Subscriber C)}
          (hf : part f = part tl) (tl') (htl' : s.timeline? group = some tl') :
          part f = part tl' := by
        obtain rfl := Option.some.inj (htl.symm.trans htl')
        exact hf
      cases hrun : tl.running with
      | false =>
          rw [after, tick_stopped htl hrun]
          exact h.clock s group _ (fun _ hid => hid) (fun _ _ => rfl) (fun _ _ => rfl) hs
      | true =>
          rw [after, tick_running htl hrun]
          cases (tl.moved now).frameNumber with
          | error fault =>
              exact h.clock s group _ (fun _ _ => hid) (hsame rfl) (hsame rfl) hs
          | ok frame =>
              have hmoving : I (s.moving group tl now frame) :=
                h.clock s group _ (fun _ _ => hid) (hsame rfl) (hsame rfl) hs
              have hheard :=
                Keeps.hearEach hhear (tl.moved now).time tl.subscribers _ hmoving
              dsimp only
              rw [← after, after_ensuring]
              exact h.calm.renew group _ hheard

end Steady

/-! ## Clocks that are made -/

section Making

variable [TimeScalar T]

/-- A timeline is made unless it is there, and is there in the end unless it cannot be made. -/
theorem openTimeline_eq (group : String) (settings : ClockSettings T) (s : Stage T C W) :
    openTimeline group settings s =
      match s.timeline? group with
      | some _ => .ok false s
      | none =>
        match Timeline.create group settings with
        | .error fault => .error (.clock fault) s
        | .ok tl => .ok true { s with timelines := s.timelines ++ [tl] } := by
  rw [openTimeline, get_bind]
  cases s.timeline? group with
  | some tl => rfl
  | none => cases Timeline.create (S := Subscriber C) group settings <;> rfl

omit [TimeScalar T] in
theorem timeline?_append (s : Stage T C W) (tl : Timeline T (Subscriber C)) (group : String) :
    timeline? { s with timelines := s.timelines ++ [tl] } group =
      (s.timeline? group).or (if tl.id == group then some tl else none) := by
  unfold timeline?
  rw [List.find?_append, List.find?_singleton]

/-- What is to be known of a clock that is made. -/
theorem of_create {settings : ClockSettings T} {tl : Timeline T (Subscriber C)}
    (h : Timeline.create group settings = .ok tl) : tl.id = group ∧ tl.subscribers = [] ∧
      tl.lastTimestamp = none ∧ tl.time = TimeScalar.zero ∧ tl.frame = 0 ∧
        tl.fps.isNonpositive = false := by
  unfold Timeline.create at h
  split at h
  · cases h
  · split at h
    · cases h
    · rename_i hfps
      cases h
      exact ⟨rfl, rfl, rfl, rfl, rfl, Bool.eq_false_iff.mpr hfps⟩

theorem openTimeline_opened {settings : ClockSettings T} {made : Bool}
    (h : openTimeline group settings s = .ok made s') : (s'.timeline? group).isSome = true := by
  rw [openTimeline_eq] at h
  cases htl : s.timeline? group with
  | some tl =>
      rw [htl] at h
      cases h
      rw [htl]
      rfl
  | none =>
      rw [htl] at h
      cases hcreate : Timeline.create (S := Subscriber C) group settings with
      | error fault =>
          rw [hcreate] at h
          cases h
      | ok tl =>
          rw [hcreate] at h
          cases h
          rw [timeline?_append, htl, (of_create hcreate).1]
          simp

/-- Where a timeline is made, it is as good as it gets made. -/
theorem Keeps.openTimeline (settings : ClockSettings T)
    (hmade : ∀ s tl, s.timeline? group = none → Timeline.create group settings = .ok tl → I s →
      I { s with timelines := s.timelines ++ [tl] }) :
    Keeps I (Stage.openTimeline group settings) := by
  intro s hs
  rw [after, openTimeline_eq]
  cases hnone : s.timeline? group with
  | some tl => exact hs
  | none =>
      cases hcreate : Timeline.create (S := Subscriber C) group settings with
      | error fault => exact hs
      | ok tl => exact hmade s tl hnone hcreate hs

end Making

/-! ## Players that are mounted and unmounted -/

/-- It depends neither on who is mounted, nor on who subscribes to clocks, nor on whether these run,
and it does not become wrong if a clock is made. -/
structure Hospitable [TimeScalar T] (I : Stage T C W → Prop) : Prop extends Calm I where
  seats : ∀ (s : Stage T C W) key (f : Player T C → Player T C),
    (∀ p, f p = { p with mounted := (f p).mounted, ownsTimeline := (f p).ownsTimeline }) →
      I s → I (s.modifyPlayer key f)
  tickets : ∀ (s : Stage T C W) group (f : Timeline T (Subscriber C) → Timeline T (Subscriber C)),
    (∀ tl, f tl = { tl with subscribers := (f tl).subscribers }) →
      I s → I (s.modifyTimeline group f)
  made : ∀ (s : Stage T C W) group settings tl, s.timeline? group = none →
    Timeline.create group settings = .ok tl → I s → I { s with timelines := s.timelines ++ [tl] }

namespace Hospitable

variable [TimeScalar T] (h : Hospitable I)
include h

theorem arrive (hreact : ∀ c notice, Keeps I (react c notice)) (key : Nat) (p : Player T C) :
    Keeps I (Stage.arrive react key p) := by
  refine .bind (.change fun s => h.seats s key _ fun _ => rfl) fun _ =>
    .bind (.change fun s => h.tickets s p.group _ fun _ => rfl) fun _ =>
    .bind (.tell (fun c => hreact c _) _) fun _ =>
    .bind (Goes.runScripts (fun hook _ => hreact hook _) key).keeps fun _ => ?_
  split
  · exact h.start _
  · exact .pure ()

theorem mount (hreact : ∀ c notice, Keeps I (react c notice)) (key : Nat) :
    Keeps I (Stage.mount react key) := by
  refine .withPlayer fun p => ?_
  split
  · exact .pure ()
  · exact .bind .get fun s => .bind (.change fun s => h.seats s key _ fun _ => rfl) fun _ =>
      .bind (.openTimeline _ fun s tl => h.made s _ _ tl) fun _ => h.arrive hreact key p

theorem unmount [DecidableEq C] (key : Nat) : Keeps I (Stage.unmount key) := by
  have hleave : Keeps I (updatePlayer key fun p => { p with mounted := false }) :=
    .change fun s => h.seats s key _ fun _ => rfl
  refine .withPlayer fun p => ?_
  split
  · exact .pure ()
  · refine .bind (.change fun s => h.tickets s p.group _ fun _ => rfl) fun _ =>
      .bind .get fun s => ?_
    split
    · split
      · exact .bind (h.stop _).keeps fun _ => hleave
      · exact hleave
    · exact hleave

end Hospitable

/-- A player that is rebound gives its own clock another duration, and runs its scripts. -/
theorem Keeps.rebind [TimeScalar T] (hreact : ∀ c notice, Keeps I (react c notice))
    (hplayer : ∀ s key f, I s → I (s.modifyPlayer key f))
    (hduration : ∀ (s : Stage T C W) group duration, I s →
      I (s.modifyTimeline group fun tl => { tl with duration }))
    (key : Nat) (composition : Composition T) : Keeps I (Stage.rebind react key composition) := by
  have hscripts : Keeps I (runScripts react key) :=
    (Goes.runScripts (fun hook _ => hreact hook _) key).keeps
  refine .bind (.change fun s => hplayer s key _) fun _ => .withPlayer fun p => ?_
  split
  · split
    · exact .bind (.change fun s => hduration s p.group _) fun _ => hscripts
    · exact hscripts
  · exact .pure ()

end Stage

end Cuesheet
