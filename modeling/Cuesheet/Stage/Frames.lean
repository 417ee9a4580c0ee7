import Cuesheet.Stage.Reflecting

/-!
# Frames on the stage

A step of a manual source serves the requests that waited when it began, in the order in which
they were made; requests made meanwhile wait for the next step. If one of them fails the rest is
lost. A paced source serves one request at a time.
-/

namespace Cuesheet.Stage

variable {T C W : Type} [TimeScalar T]

def runTask (react : React T C W) (task : FrameTask C) (time : T) : Action T C W Unit :=
  match task with
  | .tick group => tick (hear react) group time
  | .flush key => flush react key
  | .call c => react c (.frame time)

/-- Serves requests one after the other, each at the time that it is by then. -/
def serve (react : React T C W) : List (FrameTask C) → Action T C W Unit
  | [] => pure ()
  | task :: rest => do
    match (← get).source.now? with
    | none => pure ()
    | some now => runTask react task now
    serve react rest

/-! ## Manual sources -/

/-- Delivers a frame at a time, which is not earlier than the time at the source: how many
requests it served. -/
def stepTo (react : React T C W) (timestamp : T) : Action T C W Nat := do
  match (← get).source with
  | .manual now queue =>
    if TimeScalar.lt timestamp now then throw (.clock (.backwards timestamp now))
    else
      modify fun s => { s with source := .manual timestamp queue.drained }
      serve react queue.tasks
      return queue.tasks.length
  | _ => throw .unsuitableSource

/-- Delivers a frame at the time at the source. -/
def step (react : React T C W) : Action T C W Nat := do
  match (← get).source with
  | .manual now queue =>
    modify fun s => { s with source := .manual now queue.drained }
    serve react queue.tasks
    return queue.tasks.length
  | _ => throw .unsuitableSource

/-- Moves the time at the source forward and delivers a frame. -/
def advance (react : React T C W) (seconds : T) : Action T C W Nat := do
  match (← get).source with
  | .manual now _ => stepTo react (TimeScalar.add now seconds)
  | _ => throw .unsuitableSource

/-- Delivers frames at an interval as long as something waits for one, but not more than a number:
how many frames, counted on from `delivered`. -/
def advanceWhile (react : React T C W) (interval : T) (delivered : Nat) :
    Nat → Action T C W Nat
  | 0 => return delivered
  | left + 1 => do
    if (← get).source.pending = 0 then return delivered
    else
      let _ ← advance react interval
      advanceWhile react interval (delivered + 1) left

/-- Delivers the frames of a span at a rate, the first one at once: how many frames. -/
def run (react : React T C W) (seconds hz : T) : Action T C W Nat := do
  match (← get).source with
  | .manual _ _ =>
    if TimeScalar.le hz TimeScalar.zero then throw (.clock (.badRefresh hz))
    else
      let frames ← ofArith (TimeScalar.round (TimeScalar.mul seconds hz))
      let served ← step react
      advanceWhile react (FrameSource.intervalOf hz) (if served = 0 then 0 else 1) frames.toNat
  | _ => throw .unsuitableSource

/-! ## Paced sources -/

/-- Serves the request that is due first: whether there was one. -/
def fire (react : React T C W) : Action T C W Bool := do
  match (← get).source with
  | .paced now interval queue =>
    match FrameSource.earliest? queue.waiting with
    | none => return false
    | some (handle, due, task) =>
      let now := TimeScalar.later now due
      modify fun s => { s with source := .paced now interval (queue.cancel handle) }
      runTask react task now
      return true
  | _ => throw .unsuitableSource

/-- Serves up to a number of requests, counted on from `fired`: how many. -/
def fireEach (react : React T C W) (fired : Nat) : Nat → Action T C W Nat
  | 0 => return fired
  | left + 1 => do
    if ← fire react then fireEach react (fired + 1) left else return fired

end Cuesheet.Stage
