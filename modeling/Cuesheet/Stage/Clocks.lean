import Cuesheet.Stage.Basic

/-!
# Clocks on the stage

A timeline is made when its group is first named and stays. Starting it requests a frame, stopping
it takes the request back, and every tick of a running timeline ends with the next request, also
when a subscriber fails.
-/

namespace Cuesheet.Stage

variable {T C W : Type} [TimeScalar T]

/-! ## Frames -/

def request (task : FrameTask C) : Action T C W Nat := do
  match (← get).source.request? task with
  | none => throw (.clock .noFrames)
  | some (handle, source) =>
    modify fun s => { s with source }
    return handle

/-- Takes a request back. -/
def cancel (handle : Nat) : Action T C W Unit :=
  modify fun s => { s with source := s.source.cancel handle }

/-- Takes a request back if there is one. -/
def cancelIf (handle : Option Nat) : Action T C W Unit :=
  match handle with
  | none => pure ()
  | some handle => cancel handle

/-! ## Timelines -/

/-- Makes the timeline of a group unless it is there; says whether it was made. -/
def openTimeline (group : String) (settings : ClockSettings T) : Action T C W Bool := do
  match (← get).timeline? group with
  | some _ => return false
  | none =>
    match Timeline.create group settings with
    | .error fault => throw (.clock fault)
    | .ok tl =>
      modify fun s => { s with timelines := s.timelines ++ [tl] }
      return true

/-- Starts a timeline; nothing happens if it runs. -/
def start (group : String) : Action T C W Unit := do
  match (← get).timeline? group with
  | none => pure ()
  | some tl =>
    if tl.running then pure ()
    else
      modify fun s => s.modifyTimeline group fun tl =>
        { tl with running := true, lastTimestamp := none }
      let handle ← request (.tick group)
      modify fun s => s.modifyTimeline group fun tl => { tl with handle := some handle }

def stop (group : String) : Action T C W Unit := do
  match (← get).timeline? group with
  | none => pure ()
  | some tl =>
    cancelIf tl.handle
    modify fun s => s.modifyTimeline group Timeline.halted

/-- Stops timelines one after the other. -/
def stopEach : List String → Action T C W Unit
  | [] => pure ()
  | group :: rest => do
    stop group
    stopEach rest

def stopAll : Action T C W Unit := do
  stopEach ((← get).timelines.map Timeline.id)

def seek (group : String) (time : T) : Action T C W Unit := do
  match (← get).timeline? group with
  | none => pure ()
  | some tl =>
    if TimeScalar.lt time TimeScalar.zero then throw (.clock (.seekBelowZero time))
    else
      modify fun s => s.modifyTimeline group fun tl => { tl with time }
      let frame ← ofArith { tl with time }.frameNumber
      modify fun s => s.modifyTimeline group fun tl => { tl with frame }

/-- Adds a subscriber to a timeline. -/
def subscribe (group : String) (subscriber : Subscriber C) : Action T C W Unit :=
  modify fun s => s.modifyTimeline group fun tl =>
    { tl with subscribers := tl.subscribers ++ [subscriber] }

/-- Removes a subscriber from a timeline, once. -/
def unsubscribe [DecidableEq C] (group : String) (subscriber : Subscriber C) :
    Action T C W Unit :=
  modify fun s => s.modifyTimeline group fun tl =>
    { tl with subscribers := tl.subscribers.erase subscriber }

/-- Requests the next frame of a timeline that runs and has none requested. -/
def renew (group : String) : Action T C W Unit := do
  match (← get).timeline? group with
  | none => pure ()
  | some tl =>
    if tl.running && tl.handle.isNone then
      let handle ← request (.tick group)
      modify fun s => s.modifyTimeline group fun tl => { tl with handle := some handle }
    else pure ()

/-- Ticks a timeline: it moves to the time of a frame and tells its subscribers, through `hear`. -/
def tick (hear : Subscriber C → T → Action T C W Unit) (group : String) (timestamp : T) :
    Action T C W Unit := do
  match (← get).timeline? group with
  | none => pure ()
  | some tl =>
    if tl.running then
      let moved := tl.moved timestamp
      modify fun s => s.modifyTimeline group fun _ => moved
      let frame ← ofArith moved.frameNumber
      modify fun s => s.modifyTimeline group fun tl => { tl with frame }
      ensuring (hearEach moved.time moved.subscribers) (renew group)
    else modify fun s => s.modifyTimeline group fun tl => { tl with handle := none }
where
  /-- Tells the subscribers of a tick one after the other. -/
  hearEach (time : T) : List (Subscriber C) → Action T C W Unit
    | [] => pure ()
    | subscriber :: rest => do
      hear subscriber time
      hearEach time rest

end Cuesheet.Stage
