import Cuesheet.Data.Datum
import Cuesheet.Time.Scalar

/-!
# Compositions

What resolution produces: scenes with their cues, layers and components, every time absolute from
the start of the composition. A missing end means that the item lasts until something supersedes
it.
-/

namespace Cuesheet

/-- A pause: of fixed length, or drawn from a normal distribution and clipped. -/
inductive Pause (T : Type) where
  | fixed (seconds : T)
  | gaussian (mean std : T) (min max : Option T)
  deriving Repr

/-- A piece of what is spoken in a cue. -/
inductive Segment (T : Type) where
  | text (text : String) (trimEnd : Option T)
  | pause (pause : Pause T)
  deriving Repr

/-- Handler code by event name as written. -/
abbrev Handlers := Entries String String

structure Cue (T : Type) where
  id : String
  label : String
  segments : List (Segment T)
  bullets : List String
  provider : Option String
  start : Option T
  stop : Option T
  handlers : Handlers
  deriving Repr

/-- What a scene says, in order: cues, and pauses between them. -/
inductive SceneItem (T : Type) where
  | cue (cue : Cue T)
  | pause (pause : Pause T)
  deriving Repr

/-- A component that is shown in a scene. -/
structure Component (T : Type) where
  id : String
  type : String
  props : Fields
  start : Option T
  stop : Option T
  visible : Option Bool
  z : Option Number
  styles : Option Fields
  markup : Option Fields
  text : String
  handlers : Handlers
  deriving Repr

structure Layer (T : Type) where
  id : String
  start : Option T
  stop : Option T
  visible : Option Bool
  z : Option Number
  styles : Option Fields
  markup : Option Fields
  components : List (Component T)
  deriving Repr

structure Scene (T : Type) where
  id : String
  title : String
  start : T
  stop : Option T
  items : List (SceneItem T)
  layers : List (Layer T)
  components : List (Component T)
  styles : Option Fields
  markup : Option Fields
  handlers : Handlers
  deriving Repr

namespace Scene

variable {T : Type}

def cues (scene : Scene T) : List (Cue T) :=
  scene.items.filterMap fun
    | .cue cue => some cue
    | .pause _ => none

/-- The components of a scene: its own, then those of its layers. -/
def allComponents (scene : Scene T) : List (Component T) :=
  scene.components ++ scene.layers.flatMap Layer.components

end Scene

/-- How a composition is spoken. -/
structure Voiceover (T : Type) where
  provider : Option String
  voice : Option String
  model : Option String
  format : Option String
  sampleRateHz : Option Number
  seed : Option Number
  leadInSeconds : Option T
  trimEndSeconds : Option T
  deriving Repr

structure Composition (T : Type) where
  id : String
  title : Option String
  fps : Number
  width : Number
  height : Number
  scenes : List (Scene T)
  duration : Option T
  poster : Option T
  voiceover : Option (Voiceover T)
  handlers : Handlers
  scripts : List String
  deriving Repr

namespace Composition

variable {T : Type}

def scene? (c : Composition T) (id : String) : Option (Scene T) :=
  c.scenes.find? fun scene => scene.id == id

def cues (c : Composition T) : List (Cue T) := c.scenes.flatMap Scene.cues

def cue? (c : Composition T) (id : String) : Option (Cue T) :=
  c.cues.find? fun cue => cue.id == id

/-- How long the composition plays: its fixed duration, or the latest end of a scene. -/
def timelineDuration [TimeScalar T] (c : Composition T) : Option T :=
  match c.duration with
  | some duration => some duration
  | none => TimeScalar.latest? (c.scenes.filterMap Scene.stop)

end Composition

end Cuesheet
