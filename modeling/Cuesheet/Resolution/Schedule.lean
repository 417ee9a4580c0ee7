import Cuesheet.Resolution.Attempt

/-!
# The order in which scenes are resolved

Scenes may refer to each other in any direction, so they are tried in passes. A pass tries every
pending scene in document order against what is resolved so far; a scene that succeeds is known to
those after it, one that waits is tried again in the next pass. A pass that resolves nothing ends
the resolution: the scenes that are still pending can never be resolved.

What is known at any time is read off the scenes resolved so far, so the state of the resolution
is just these scenes.
-/

namespace Cuesheet

/-- The scenes of a composition in document order, as far as they are resolved. -/
abbrev Progress (T : Type) := List (Option (Scene T))

namespace Progress

variable {T : Type}

def scenes (progress : Progress T) : List (Scene T) := progress.filterMap id

def scene? (progress : Progress T) (id : String) : Option (Scene T) :=
  progress.scenes.find? fun scene => scene.id == id

def at? (progress : Progress T) (index : Nat) : Option (Scene T) := (progress[index]?).join

/-- The ids of the cues in resolved scenes. -/
def cueIds (progress : Progress T) : List String :=
  progress.scenes.flatMap fun scene => scene.cues.map Cue.id

/-- The start of the cue with an id, if it is resolved and timed. -/
def cueStart? (progress : Progress T) (id : String) : Option T :=
  (progress.scenes.flatMap Scene.cues).findSome? fun cue =>
    if cue.id == id then cue.start else none

def known (progress : Progress T) (fps : Number) (index : Nat) : Known T :=
  let previous := if index = 0 then none else progress.at? (index - 1)
  { fps
    sceneStart := fun id => (progress.scene? id).map Scene.start
    sceneEnd := fun id => (progress.scene? id).bind Scene.stop
    cueStart := progress.cueStart?
    prevStart := previous.map Scene.start
    prevEnd := previous.bind Scene.stop
    nextStart := (progress.at? (index + 1)).map Scene.start }

end Progress

/-- What is to be resolved: scene elements with their ids, in document order. -/
structure Storyboard (T : Type) where
  fps : Number
  /-- The time scale of the root. -/
  scale : T
  scenes : List (String × Element)

namespace Storyboard

variable {T : Type} [TimeScalar T]

/-- What the scene at an index starts from. -/
def setting (board : Storyboard T) (progress : Progress T) (index : Nat) : Setting T :=
  { known := progress.known board.fps index
    takenCues := progress.cueIds
    isFirst := index = 0
    scale := board.scale }

/-- Tries the scene at an index against what is resolved so far. -/
def attempt (board : Storyboard T) (progress : Progress T) (index : Nat) :
    Except AttemptStop (Scene T) :=
  match board.scenes[index]? with
  | none => .error (.wrong .noScenes)
  | some (id, el) => Attempt.run (board.setting progress index) id el

/-- Nothing is resolved. -/
def start (board : Storyboard T) : Progress T := List.replicate board.scenes.length none

/-- The ids of the scenes at some indices. -/
def idsAt (board : Storyboard T) (indices : List Nat) : List String :=
  indices.filterMap fun index => (board.scenes[index]?).map (·.1)

/-- Tries pending scenes one after the other: what is resolved afterwards, and the scenes that are
still pending. -/
def pass (board : Storyboard T) :
    List Nat → Progress T → Except ResolutionFault (Progress T × List Nat)
  | [], progress => .ok (progress, [])
  | index :: rest, progress =>
    match board.attempt progress index with
    | .ok scene => board.pass rest (progress.set index (some scene))
    | .error (.waiting _) =>
      match board.pass rest progress with
      | .error fault => .error fault
      | .ok (progress, left) => .ok (progress, index :: left)
    | .error (.wrong fault) => .error fault
    | .error (.fault fault) => .error (.arith fault)

/-- How many passes are allowed at most. -/
def passLimit (board : Storyboard T) : Nat := board.scenes.length + 2

/-- Makes passes over the pending scenes until none is left: what is resolved, and the number of
passes, to which those before are added. -/
def passes (board : Storyboard T) (before : Nat) (pending : List Nat) (progress : Progress T) :
    Except ResolutionFault (Progress T × Nat) :=
  if pending.isEmpty then .ok (progress, before)
  else
    match board.pass pending progress with
    | .error fault => .error fault
    | .ok (progress, left) =>
      if h : left.length < pending.length then
        if !left.isEmpty && board.passLimit < before + 1 then .error .notConverging
        else board.passes (before + 1) left progress
      else .error (.unresolved (board.idsAt left))
termination_by pending.length

/-- Resolves all scenes, in document order. -/
def resolve (board : Storyboard T) : Except ResolutionFault (List (Scene T)) :=
  (board.passes 0 (List.range board.scenes.length) board.start).map fun (progress, _) =>
    progress.scenes

end Storyboard

end Cuesheet
