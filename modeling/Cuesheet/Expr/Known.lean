import Cuesheet.Time.Scalar

/-!
# What is known while a formula is evaluated

A formula may refer to the times of scenes, cues and neighbouring scenes. While a composition is
being resolved only some of them are known; referring to one of the others is not an error but a
reason to try again later.
-/

namespace Cuesheet

/-- A time that a formula refers to, in the form in which it does. -/
inductive Reference where
  | scene (id : String)
  | sceneStart (id : String)
  | sceneEnd (id : String)
  | cue (id : String)
  | cueStart (id : String)
  | prevStart
  | prevEnd
  | nextStart
  deriving DecidableEq, Repr

/-- How a reference is written in a formula. -/
def Reference.text : Reference → String
  | .scene id => "scene(" ++ id ++ ")"
  | .sceneStart id => "scene(" ++ id ++ ").start"
  | .sceneEnd id => "scene(" ++ id ++ ").end"
  | .cue id => "cue(" ++ id ++ ")"
  | .cueStart id => "cue(" ++ id ++ ").start"
  | .prevStart => "prev.start"
  | .prevEnd => "prev.end"
  | .nextStart => "next.start"

/-- The frame rate and the times known so far. -/
structure Known (T : Type) where
  fps : Number
  sceneStart : String → Option T := fun _ => none
  sceneEnd : String → Option T := fun _ => none
  cueStart : String → Option T := fun _ => none
  prevStart : Option T := none
  prevEnd : Option T := none
  nextStart : Option T := none

namespace Known

variable {T : Type}

/-- The time a reference stands for, if it is known. -/
def lookup (known : Known T) : Reference → Option T
  | .scene id => known.sceneStart id
  | .sceneStart id => known.sceneStart id
  | .sceneEnd id => known.sceneEnd id
  | .cue id => known.cueStart id
  | .cueStart id => known.cueStart id
  | .prevStart => known.prevStart
  | .prevEnd => known.prevEnd
  | .nextStart => known.nextStart

end Known

end Cuesheet
