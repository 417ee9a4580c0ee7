import Cuesheet.Time.Scalar

/-!
# Frame sources

Whoever wants to act on the next frame requests it and gets a handle, with which the request can
be taken back. A request is served once. Three sources differ in when they serve: a manual source
when it is stepped, a paced one a fixed interval after the request, and a stalled one never, so
that it takes no requests.
-/

namespace Cuesheet

/-! ## Requests that wait -/

/-- Requests in the order in which they were made, each under a handle that was never used
before. -/
structure FrameQueue (A : Type) where
  waiting : List (Nat × A) := []
  nextHandle : Nat := 0
  deriving Repr

namespace FrameQueue

variable {A : Type}

/-- Adds a request under the next handle. -/
def request (q : FrameQueue A) (a : A) : FrameQueue A :=
  { waiting := q.waiting ++ [(q.nextHandle, a)], nextHandle := q.nextHandle + 1 }

/-- Takes a request back; handles that do not wait are ignored. -/
def cancel (q : FrameQueue A) (handle : Nat) : FrameQueue A :=
  { q with waiting := q.waiting.filter fun entry => entry.1 != handle }

/-- The queue after all requests were taken out. -/
def drained (q : FrameQueue A) : FrameQueue A := { q with waiting := [] }

/-- The requests without their handles. -/
def tasks (q : FrameQueue A) : List A := q.waiting.map Prod.snd

theorem tasks_request (q : FrameQueue A) (a : A) : (q.request a).tasks = q.tasks ++ [a] := by
  simp [tasks, request]

theorem tasks_drained (q : FrameQueue A) : q.drained.tasks = [] := rfl

theorem mem_cancel {q : FrameQueue A} {handle : Nat} {entry : Nat × A} :
    entry ∈ (q.cancel handle).waiting ↔ entry ∈ q.waiting ∧ entry.1 ≠ handle := by
  simp [cancel]

end FrameQueue

/-! ## Sources -/

/-- Where frames come from, and what time it is there. -/
inductive FrameSource (T A : Type) where
  /-- Serves every request when it is stepped. -/
  | manual (now : T) (queue : FrameQueue A)
  /-- Serves a request when the interval after it is over; requests wait with the time at which
  they are due. -/
  | paced (now interval : T) (queue : FrameQueue (T × A))
  /-- Takes no requests. -/
  | stalled
  deriving Repr

namespace FrameSource

variable {T A : Type} [TimeScalar T]

def atTime (now : T) : FrameSource T A := .manual now {}

/-- The interval between the frames of a display. -/
def intervalOf (hz : T) : T := TimeScalar.div TimeScalar.one hz

/-- A source that serves so many frames a second; none if that is zero or below. -/
def atRate? (now hz : T) : Option (FrameSource T A) :=
  if TimeScalar.le hz TimeScalar.zero then none else some (.paced now (intervalOf hz) {})

/-- Requests a frame: the handle, and the source with the request. -/
def request? (source : FrameSource T A) (a : A) : Option (Nat × FrameSource T A) :=
  match source with
  | .manual now queue => some (queue.nextHandle, .manual now (queue.request a))
  | .paced now interval queue =>
    some (queue.nextHandle, .paced now interval (queue.request (TimeScalar.add now interval, a)))
  | .stalled => none

/-- Takes a request back. -/
def cancel (source : FrameSource T A) (handle : Nat) : FrameSource T A :=
  match source with
  | .manual now queue => .manual now (queue.cancel handle)
  | .paced now interval queue => .paced now interval (queue.cancel handle)
  | .stalled => .stalled

def now? : FrameSource T A → Option T
  | .manual now _ => some now
  | .paced now _ _ => some now
  | .stalled => none

/-- How many requests wait. -/
def pending : FrameSource T A → Nat
  | .manual _ queue => queue.waiting.length
  | .paced _ _ queue => queue.waiting.length
  | .stalled => 0

/-- The request that is due first, the oldest of several. -/
def earliest? : List (Nat × T × A) → Option (Nat × T × A)
  | [] => none
  | entry :: rest =>
    match earliest? rest with
    | none => some entry
    | some other => if TimeScalar.lt other.2.1 entry.2.1 then some other else some entry

end FrameSource

end Cuesheet
