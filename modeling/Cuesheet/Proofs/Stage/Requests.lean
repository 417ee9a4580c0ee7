import Cuesheet.Proofs.Stage.Clocks
import Mathlib.Data.List.Nodup

/-!
# Whose requests wait

On an `Orderly` stage handles are given out once, and no two clocks hold the same one; every shift
keeps that. On a `Linked` one, whoever waits for a frame is a clock that runs and holds the handle
of the request, so no clock waits twice and none that is stopped waits at all (`Linked.tidy`). A
clock whose tick is served lets go of its handle: the stage stays linked if the clock has not asked
for another frame by then.
-/

namespace Cuesheet

/-- Whether a frame is requested for the tick of a clock. -/
def FrameTask.isTick {C : Type} (group : String) : FrameTask C → Bool
  | .tick other => other == group
  | _ => false

theorem FrameTask.isTick_iff {C : Type} {group : String} {task : FrameTask C} :
    task.isTick group = true ↔ task = .tick group := by
  cases task with
  | tick other =>
      constructor
      · exact fun h => congrArg _ (eq_of_beq h)
      · rintro ⟨⟩
        exact beq_self_eq_true group
  | flush key => exact ⟨fun h => (nomatch h), fun h => (nomatch h)⟩
  | call c => exact ⟨fun h => (nomatch h), fun h => (nomatch h)⟩

namespace Stage

variable {T C W : Type} {s s' : Stage T C W}

/-- How many frames are requested for the tick of a clock. -/
def waitingTicks (s : Stage T C W) (group : String) : Nat :=
  s.queue.waiting.countP fun e => e.2.isTick group

/-- No clock has asked for more than one frame, and none that is stopped has asked for any. -/
def Tidy (s : Stage T C W) : Prop :=
  ∀ group tl, s.timeline? group = some tl →
    s.waitingTicks group ≤ 1 ∧ (tl.running = false → s.waitingTicks group = 0)

/-- Every clock that runs has asked for a frame. -/
def Awake (s : Stage T C W) : Prop :=
  ∀ group tl, s.timeline? group = some tl → tl.running = true → 0 < s.waitingTicks group

/-- Two requests for the tick of one clock. -/
theorem two_le_waitingTicks {group : String} {handle other : Nat} (hne : handle ≠ other)
    (h : (handle, .tick group) ∈ s.queue.waiting) (h' : (other, .tick group) ∈ s.queue.waiting) :
    2 ≤ s.waitingTicks group := by
  unfold waitingTicks
  rw [List.countP_eq_length_filter]
  have hnodup : [(handle, FrameTask.tick (C := C) group), (other, .tick group)].Nodup := by
    simp [hne]
  refine hnodup.length_le_of_subset fun e he => ?_
  refine List.mem_filter.mpr ?_
  rcases List.mem_cons.mp he with rfl | he
  · exact ⟨h, FrameTask.isTick_iff.mpr rfl⟩
  · obtain rfl := List.mem_singleton.mp he
    exact ⟨h', FrameTask.isTick_iff.mpr rfl⟩

theorem waitingTicks_pos {group : String} :
    0 < s.waitingTicks group ↔ ∃ handle, (handle, .tick group) ∈ s.queue.waiting := by
  unfold waitingTicks
  rw [List.countP_pos_iff]
  constructor
  · rintro ⟨⟨handle, task⟩, he, htask⟩
    obtain rfl := FrameTask.isTick_iff.mp htask
    exact ⟨handle, he⟩
  · rintro ⟨handle, he⟩
    exact ⟨_, he, FrameTask.isTick_iff.mpr rfl⟩

/-! ## Orderly stages -/

/-- Handles are given out once, no two clocks hold the same one, and all who are told the time
are callbacks. -/
structure Orderly (s : Stage T C W) : Prop where
  manual : s.Manual
  nodup : (s.queue.waiting.map Prod.fst).Nodup
  issued : ∀ e ∈ s.queue.waiting, e.1 < s.queue.nextHandle
  held : ∀ {group : String} {running : Bool} {handle : Nat},
    s.hand? group = some (running, some handle) → handle < s.queue.nextHandle
  apart : ∀ {group other : String} {running running' : Bool} {handle : Nat},
    s.hand? group = some (running, some handle) → s.hand? other = some (running', some handle) →
      group = other
  called : ∀ {group : String} {subscribers : List (Subscriber C)},
    s.subscribers? group = some subscribers → ∀ sub ∈ subscribers, ∃ c, sub = .call c

/-- What waits after a request was given up. -/
theorem mem_waiting_dropped {A : Type} {queue : FrameQueue A} {handle : Option Nat} {e : Nat × A} :
    e ∈ (handle.elim queue queue.cancel).waiting ↔ e ∈ queue.waiting ∧ handle ≠ some e.1 := by
  cases handle with
  | none => simp
  | some h => simp [FrameQueue.mem_cancel, eq_comm]

theorem nextHandle_dropped {A : Type} {queue : FrameQueue A} {handle : Option Nat} :
    (handle.elim queue queue.cancel).nextHandle = queue.nextHandle := by
  cases handle <;> rfl

theorem waiting_dropped_sublist {A : Type} {queue : FrameQueue A} {handle : Option Nat} :
    (handle.elim queue queue.cancel).waiting.Sublist queue.waiting := by
  cases handle with
  | none => exact .refl _
  | some h => exact List.filter_sublist

theorem Orderly.calls (h : s.Orderly) {group : String} {tl : Timeline T (Subscriber C)}
    (htl : s.timeline? group = some tl) : ∀ sub ∈ tl.subscribers, ∃ c, sub = .call c := by
  have hsubs : s.subscribers? group = some tl.subscribers := by
    unfold subscribers?
    rw [htl]; rfl
  exact h.called hsubs

theorem Orderly.of_hands (h : s.Orderly) (manual : s'.Manual) (queue : s'.queue = s.queue)
    (hands : ∀ group, s'.hand? group = s.hand? group)
    (called : ∀ {group : String} {subscribers : List (Subscriber C)},
      s'.subscribers? group = some subscribers → ∀ sub ∈ subscribers, ∃ c, sub = .call c) :
    s'.Orderly := by
  refine ⟨manual, by rw [queue]; exact h.nodup, by rw [queue]; exact h.issued, ?_, ?_, called⟩
  · intro group running handle hg
    rw [hands] at hg
    rw [queue]
    exact h.held hg
  · intro group other running running' handle hg ho
    rw [hands] at hg ho
    exact h.apart hg ho

theorem Orderly.shift (h : s.Orderly) (hshift : s.Shift s') : s'.Orderly := by
  have hcalled : ∀ {group : String} {subscribers : List (Subscriber C)},
      s'.subscribers? group = some subscribers → ∀ sub ∈ subscribers, ∃ c, sub = .call c := by
    intro group subscribers hsubs
    rw [hshift.subscribers] at hsubs
    exact h.called hsubs
  cases hshift.change with
  | none queue hands => exact h.of_hands (hshift.manual h.manual) queue hands hcalled
  | @asked group running handle hand free queue hands =>
      have hcases : ∀ {other : String} {running : Bool} {handle : Nat},
          s'.hand? other = some (running, some handle) →
            other = group ∧ handle = s.queue.nextHandle ∨
              other ≠ group ∧ s.hand? other = some (running, some handle) := by
        intro other running handle ho
        rw [hands] at ho
        split at ho
        · cases ho
          exact .inl ⟨‹_›, rfl⟩
        · exact .inr ⟨‹_›, ho⟩
      refine ⟨hshift.manual h.manual, ?_, ?_, ?_, ?_, hcalled⟩
      · rw [queue]
        show ((s.queue.waiting ++ [_]).map Prod.fst).Nodup
        rw [List.map_append]
        refine List.Nodup.append h.nodup (List.nodup_singleton _) ?_
        rintro _ hmem hnew
        obtain rfl := List.mem_singleton.mp hnew
        obtain ⟨e, he, heq⟩ := List.mem_map.mp hmem
        exact absurd heq (Nat.ne_of_lt (h.issued e he))
      · rw [queue]
        intro e he
        rcases List.mem_append.mp he with he | he
        · exact Nat.lt_succ_of_lt (h.issued e he)
        · obtain rfl := List.mem_singleton.mp he
          exact Nat.lt_succ_self _
      · intro other running handle ho
        rw [queue]
        rcases hcases ho with ⟨-, rfl⟩ | ⟨-, ho⟩
        · exact Nat.lt_succ_self _
        · exact Nat.lt_succ_of_lt (h.held ho)
      · intro g g' r r' handle hg hg'
        rcases hcases hg with ⟨rfl, hh⟩ | ⟨-, hg⟩ <;> rcases hcases hg' with ⟨rfl, hh'⟩ | ⟨-, hg'⟩
        · rfl
        · exact absurd hh (Nat.ne_of_lt (h.held hg'))
        · exact absurd hh' (Nat.ne_of_lt (h.held hg))
        · exact h.apart hg hg'
  | @dropped group running handle hand queue hands =>
      have hold : ∀ {other : String} {running : Bool} {handle : Nat},
          s'.hand? other = some (running, some handle) →
            s.hand? other = some (running, some handle) := by
        intro other running handle ho
        rw [hands] at ho
        split at ho
        · cases ho
        · exact ho
      refine ⟨hshift.manual h.manual, ?_, ?_, ?_, ?_, hcalled⟩
      · rw [queue]
        exact h.nodup.sublist (waiting_dropped_sublist.map _)
      · rw [queue, nextHandle_dropped]
        exact fun e he => h.issued e (mem_waiting_dropped.mp he).1
      · rw [queue, nextHandle_dropped]
        exact fun ho => h.held (hold ho)
      · exact fun hg hg' => h.apart (hold hg) (hold hg')

/-! ## Linked stages -/

/-- Every request that waits is held by the running clock that it is for. -/
structure Linked (s : Stage T C W) : Prop extends Orderly s where
  own : ∀ e ∈ s.queue.waiting, ∃ group, e.2 = .tick group ∧ s.hand? group = some (true, some e.1)

namespace Linked

/-- The clock that a request is for holds it. -/
theorem hand_of_mem (h : s.Linked) {group : String} {handle : Nat}
    (he : (handle, .tick group) ∈ s.queue.waiting) : s.hand? group = some (true, some handle) := by
  obtain ⟨other, htask, hhand⟩ := h.own _ he
  cases htask
  exact hhand

theorem of_hands (h : s.Linked) (horderly : s'.Orderly) (queue : s'.queue = s.queue)
    (hands : ∀ group, s'.hand? group = s.hand? group) : s'.Linked := by
  refine ⟨horderly, fun e he => ?_⟩
  rw [queue] at he
  obtain ⟨group, htask, hhand⟩ := h.own e he
  exact ⟨group, htask, by rw [hands, hhand]⟩

theorem shift (h : s.Linked) (hshift : s.Shift s') : s'.Linked := by
  have horderly := h.toOrderly.shift hshift
  cases hshift.change with
  | none queue hands => exact h.of_hands horderly queue hands
  | @asked group running handle hand free queue hands =>
      refine ⟨horderly, fun e he => ?_⟩
      rw [queue] at he
      rcases List.mem_append.mp he with he | he
      · obtain ⟨other, htask, hhand⟩ := h.own e he
        refine ⟨other, htask, ?_⟩
        rw [hands, if_neg, hhand]
        -- whoever asks has no request that waits
        rintro rfl
        rw [hand] at hhand
        cases hhand
        rcases free with h | h <;> cases h
      · obtain rfl := List.mem_singleton.mp he
        exact ⟨group, rfl, by rw [hands, if_pos rfl]⟩
  | @dropped group running handle hand queue hands =>
      refine ⟨horderly, fun e he => ?_⟩
      rw [queue] at he
      obtain ⟨he, hne⟩ := mem_waiting_dropped.mp he
      obtain ⟨other, htask, hhand⟩ := h.own e he
      refine ⟨other, htask, ?_⟩
      rw [hands, if_neg, hhand]
      rintro rfl
      rw [hand] at hhand
      cases hhand
      exact hne rfl

theorem tidy (h : s.Linked) : s.Tidy := by
  intro group tl htl
  have hhand := hand?_of_timeline? htl
  constructor
  · unfold waitingTicks
    rw [List.countP_eq_length_filter, ← List.length_map Prod.fst]
    have hnodup : ((s.queue.waiting.filter fun e => e.2.isTick group).map Prod.fst).Nodup :=
      h.nodup.sublist (List.filter_sublist.map Prod.fst)
    have hsub : (s.queue.waiting.filter fun e => e.2.isTick group).map Prod.fst ⊆
        tl.handle.toList := by
      intro handle hmem
      obtain ⟨⟨_, task⟩, he, rfl⟩ := List.mem_map.mp hmem
      obtain ⟨he, htask⟩ := List.mem_filter.mp he
      obtain rfl := FrameTask.isTick_iff.mp htask
      have hheld := h.hand_of_mem he
      rw [hhand] at hheld
      rw [(Prod.mk.inj (Option.some.inj hheld)).2]
      exact List.mem_singleton.mpr rfl
    refine Nat.le_trans (hnodup.length_le_of_subset hsub) ?_
    cases tl.handle <;> simp
  · intro hstopped
    refine Nat.eq_zero_of_not_pos fun hpos => ?_
    obtain ⟨handle, he⟩ := waitingTicks_pos.mp hpos
    have hrun := h.hand_of_mem he
    rw [hhand, hstopped] at hrun
    cases hrun

end Linked

/-! ## Clocks whose tick is served -/

/-- A clock lets go of its handle, and runs on at most if it ran. -/
structure Serves (group : String) (running : Bool) (s s' : Stage T C W) : Prop where
  source : s'.source = s.source
  subscribers : ∀ other, s'.subscribers? other = s.subscribers? other
  hands : ∀ other, s'.hand? other = if other = group then some (running, none) else s.hand? other

variable {group : String} {running : Bool}

theorem Serves.hand_of_some (h : Serves group running s s') {other : String} {running' : Bool}
    {handle : Nat} (ho : s'.hand? other = some (running', some handle)) :
    other ≠ group ∧ s.hand? other = some (running', some handle) := by
  rw [h.hands] at ho
  split at ho
  · cases ho
  · exact ⟨‹_›, ho⟩

theorem Orderly.serves (h : s.Orderly) (hserves : Serves group running s s') : s'.Orderly := by
  have hqueue := queue_congr hserves.source
  refine ⟨?_, by rw [hqueue]; exact h.nodup, by rw [hqueue]; exact h.issued, ?_, ?_, ?_⟩
  · obtain ⟨now, queue, hsource⟩ := h.manual
    exact ⟨now, queue, hserves.source.trans hsource⟩
  · intro other running' handle ho
    rw [hqueue]
    exact h.held (hserves.hand_of_some ho).2
  · exact fun hg ho => h.apart (hserves.hand_of_some hg).2 (hserves.hand_of_some ho).2
  · intro other subscribers hsubs
    rw [hserves.subscribers] at hsubs
    exact h.called hsubs

/-- Nothing is left behind if the clock has no request that waits. -/
theorem Linked.serves (h : s.Linked) (hserves : Serves group running s s')
    (hnone : ∀ handle, (handle, .tick group) ∉ s.queue.waiting) : s'.Linked := by
  refine ⟨h.toOrderly.serves hserves, fun e he => ?_⟩
  rw [queue_congr hserves.source] at he
  obtain ⟨other, htask, hhand⟩ := h.own e he
  refine ⟨other, htask, ?_⟩
  rw [hserves.hands, if_neg, hhand]
  rintro rfl
  exact hnone e.1 (htask ▸ he)

end Stage

end Cuesheet
