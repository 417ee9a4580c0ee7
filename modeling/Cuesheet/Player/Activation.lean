import Cuesheet.Composition.Basic

/-!
# What is active at a time

Every window is half open: an item is active from its start on and no longer at its end. The
active scene is the last one whose window holds the time, where a scene without an end lasts until
the next one starts. Cues are active independently of scenes.
-/

namespace Cuesheet

variable {T : Type} [TimeScalar T]

/-- Whether a time is in a window that may be open to the end. -/
def inWindow (start : T) (stop : Option T) (time : T) : Bool :=
  TimeScalar.le start time && stop.all fun stop => TimeScalar.lt time stop

/-! ## Scenes -/

/-- When a scene is over: at its end, or else when the next one starts. -/
def Scene.boundary (scene : Scene T) (next : Option (Scene T)) : Option T :=
  match scene.stop with
  | some stop => some stop
  | none => next.map Scene.start

/-- The last of some scenes that is active at a time. -/
def activeAmong (time : T) : List (Scene T) → Option (Scene T)
  | [] => none
  | scene :: rest =>
    match activeAmong time rest with
    | some later => some later
    | none =>
      if inWindow scene.start (scene.boundary rest.head?) time then some scene else none

def Composition.activeScene? (c : Composition T) (time : T) : Option (Scene T) :=
  activeAmong time c.scenes

/-! ## Components -/

structure TimedComponent (T : Type) where
  id : String
  start : T
  stop : T
  deriving Repr

def TimedComponent.isVisible (c : TimedComponent T) (time : T) : Bool :=
  inWindow c.start (some c.stop) time

omit [TimeScalar T] in
def Scene.timedComponents (scene : Scene T) : List (TimedComponent T) :=
  scene.allComponents.filterMap fun c =>
    match c.start, c.stop with
    | some start, some stop => some ⟨c.id, start, stop⟩
    | _, _ => none

/-- What tells the timed components of a composition apart: the scene, the place among the timed
components of the scene, and the id. -/
abbrev ComponentKey := String × Nat × String

omit [TimeScalar T] in
/-- The timed components of a scene under their keys, the places counted from `index`. -/
def keyed (scene : String) (index : Nat) :
    List (TimedComponent T) → List (ComponentKey × TimedComponent T)
  | [] => []
  | c :: rest => ((scene, index, c.id), c) :: keyed scene (index + 1) rest

omit [TimeScalar T] in
def Composition.componentKeys (c : Composition T) : List ComponentKey :=
  c.scenes.flatMap fun scene => (keyed scene.id 0 scene.timedComponents).map Prod.fst

/-! ## Cues -/

structure TimedCue (T : Type) where
  id : String
  start : T
  stop : Option T
  deriving Repr

def TimedCue.isActive (cue : TimedCue T) (time : T) : Bool := inWindow cue.start cue.stop time

omit [TimeScalar T] in
/-- The cues of a composition that have a start, in order. -/
def Composition.timedCues (c : Composition T) : List (TimedCue T) :=
  c.cues.filterMap fun cue => cue.start.map fun start => ⟨cue.id, start, cue.stop⟩

end Cuesheet
