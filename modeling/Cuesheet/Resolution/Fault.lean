import Cuesheet.Data.Attribute
import Cuesheet.Expr.Evaluate
import Cuesheet.Markup.Element

/-!
# Why markup does not resolve

A fault of structure, a wrong time formula, an arithmetic fault, or scenes whose times wait for
each other for ever.
-/

namespace Cuesheet

/-- Why markup is not a composition. -/
inductive ResolutionFault where
  | wrongRoot
  | noId
  | notPositive (tag name raw : String)
  | staticReference (label : String) (r : Reference)
  | manyVoiceovers
  | noScenes
  | sceneWithoutId (index : Nat)
  | duplicateScene (id : String)
  /-- The end and the start of the scene are given as they are shown. -/
  | endBeforeStart (place stop start : String)
  | cueWithoutId (place : String)
  | duplicateCue (id : String)
  | cueWithoutStart (id : String)
  | incompletePause (place : String)
  | layerWithoutId (place : String)
  | badMap (what : String) (fault : MapFault)
  /-- The times of some scenes can never be known. -/
  | unresolved (ids : List String)
  | notConverging
  | time (fault : TimeFault)
  | arith (fault : ArithFault)
  deriving DecidableEq, Repr

def ResolutionFault.message : ResolutionFault → String
  | .wrongRoot => "XML root must be <vml>, <videoml>, or <video-ml>."
  | .noId => "vml requires id."
  | .notPositive tag name raw =>
    "<" ++ tag ++ "> " ++ name ++ " must be a positive number, got '" ++ raw ++ "'."
  | .staticReference label r =>
    label ++ " cannot reference " ++ r.text
      ++ "; only literal and timeline expressions are allowed."
  | .manyVoiceovers => "vml allows at most one <voiceover>."
  | .noScenes => "vml requires at least one scene."
  | .sceneWithoutId index => "Scene " ++ Number.intText index ++ ": scene requires id."
  | .duplicateScene id => "Duplicate scene id: \"" ++ id ++ "\"."
  | .endBeforeStart place stop start =>
    place ++ ": end (" ++ stop ++ ") is before start (" ++ start ++ ")."
  | .cueWithoutId place => place ++ ": cue requires id."
  | .duplicateCue id => "Duplicate cue id across scenes: \"" ++ id ++ "\"."
  | .cueWithoutStart id =>
    "cue \"" ++ id ++ "\" timing requires start when end or duration is provided."
  | .incompletePause place => place ++ ": pause requires seconds or mean+std."
  | .layerWithoutId place => place ++ ": layer requires id."
  | .badMap what fault => fault.message what
  | .unresolved ids => "Unresolved time references for scenes: " ++ String.intercalate ", " ids
  | .notConverging => "Time resolution did not converge."
  | .time fault => fault.message
  | .arith fault => fault.message

/-- Why an attempt at a scene stops: it waits for a time, or it fails. -/
abbrev AttemptStop := Stop ResolutionFault

/-- What is said about a stop when nothing can be waited for any more. -/
def ResolutionFault.ofStop (label : String) : Stop TimeFault → ResolutionFault
  | .waiting r => .staticReference label r
  | .wrong fault => .time fault
  | .fault fault => .arith fault

end Cuesheet
