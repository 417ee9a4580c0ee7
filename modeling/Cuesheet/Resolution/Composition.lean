import Cuesheet.Resolution.Schedule

/-!
# From markup to a composition

The root gives the size, the frame rate, a fixed duration and a poster time; at most one voiceover
says how cues are spoken; the scenes are the direct children with that tag. Times outside scenes
may not refer to scenes or cues.
-/

namespace Cuesheet

namespace Resolution

variable {T : Type} [TimeScalar T]

/-! ## The root -/

/-- The frame rate of a composition that does not give one. -/
def defaultFps : Number := .int 30

def defaultWidth : Number := .int 1280

def defaultHeight : Number := .int 720

/-- The value of a formula that may not refer to scenes or cues; `label` names it. -/
def staticTime (fps : Number) (label raw : String) : Except ResolutionFault T :=
  match evaluateTime { fps } raw with
  | .ok t => .ok t
  | .error stop => .error (.ofStop label stop)

/-- The time in an attribute of an element outside all scenes. -/
def staticTime? (fps : Number) (el : Element) (name : String) :
    Except ResolutionFault (Option T) :=
  match el.get? name with
  | none => .ok none
  | some raw => (staticTime fps ("<" ++ el.tag ++ "> " ++ name) raw).map some

/-! ## The voiceover -/

/-- The time in one of two attributes of a voiceover. -/
def voiceoverTime? (fps : Number) (el : Element) (name other : String) :
    Except ResolutionFault (Option T) :=
  match el.getFirst? [name, other] with
  | none => .ok none
  | some raw => (staticTime fps ("<voiceover> " ++ name) raw).map some

def voiceover (fps : Number) (el : Element) : Except ResolutionFault (Voiceover T) := do
  let sampleRateHz ← Element.number? (el.getFirst? ["sampleRateHz", "sample-rate-hz"])
  let seed ← Element.number? (el.get? "seed")
  let leadInSeconds ← voiceoverTime? fps el "leadInSeconds" "lead-in-seconds"
  let trimEndSeconds ← voiceoverTime? fps el "trimEndSeconds" "trim-end-seconds"
  return {
    provider := el.get? "provider"
    voice := el.get? "voice"
    model := el.get? "model"
    format := el.get? "format"
    sampleRateHz
    seed
    leadInSeconds
    trimEndSeconds }

/-- The voiceover of a root, of which there is at most one. -/
def voiceover? (fps : Number) (root : Element) :
    Except ResolutionFault (Option (Voiceover T)) :=
  match root.childElements ["voiceover"] with
  | [] => .ok none
  | [el] => (voiceover fps el).map some
  | _ => .error .manyVoiceovers

/-! ## The scenes -/

/-- The scene elements with their ids, which are given and distinct. -/
def identified (index : Nat) (taken : List String) :
    List Element → Except ResolutionFault (List (String × Element))
  | [] => .ok []
  | el :: rest =>
    match el.get? "id" with
    | none => .error (.sceneWithoutId index)
    | some id =>
      if taken.contains id then .error (.duplicateScene id)
      else (identified (index + 1) (id :: taken) rest).map ((id, el) :: ·)

def storyboard (fps : Number) (root : Element) : Except ResolutionFault (Storyboard T) :=
  match root.childElements ["scene"] with
  | [] => .error .noScenes
  | elements =>
    (identified 0 [] elements).map fun scenes => { fps, scale := root.timeScale, scenes }

/-- The scripts in a tree, blanks around them dropped. -/
def scripts (root : Element) : List String :=
  root.preorder.filterMap fun el =>
    if el.tag == "script" then
      let code := Text.trim el.text
      if code.isEmpty then none else some code
    else none

/-! ## Compositions -/

def compose (root : Element) : Except ResolutionFault (Composition T) := do
  if !rootTags.contains root.tag then throw .wrongRoot
  match root.get? "id" with
  | none => throw .noId
  | some id =>
    let fps ← root.positiveNumber "fps" defaultFps
    let width ← root.positiveNumber "width" defaultWidth
    let height ← root.positiveNumber "height" defaultHeight
    let duration ← staticTime? fps root "duration"
    let poster ← staticTime? fps root "poster"
    let voiceover ← voiceover? fps root
    let board ← storyboard fps root
    let scenes ← board.resolve
    return {
      id
      title := root.get? "title"
      fps
      width
      height
      scenes
      duration
      poster
      voiceover
      handlers := root.handlers
      scripts := scripts root }

end Resolution

/-! ## From text -/

/-- Why a text is not a composition. -/
inductive CompositionFault where
  | markup (fault : MarkupFault)
  | name (fault : Xml.NameFault)
  | resolution (fault : ResolutionFault)
  deriving DecidableEq, Repr

namespace CompositionFault

def message : CompositionFault → String
  | markup fault => fault.message
  | name fault => fault.message
  | resolution fault => fault.message

/-- Whether a fault is one of the text, as opposed to a breakdown of the arithmetic, which is not
reported but passed on. -/
def isReported : CompositionFault → Bool
  | resolution (.arith .infinityToInteger) => false
  | resolution (.arith .integerTooLarge) => false
  | resolution (.arith .zeroDivision) => false
  | _ => true

end CompositionFault

/-- Resolves the root element of a document. -/
def Xml.Source.compose {T : Type} [TimeScalar T] (source : Xml.Source) :
    Except CompositionFault (Composition T) :=
  match source.element with
  | .error fault => .error (.name fault)
  | .ok root =>
    match Resolution.compose root with
    | .error fault => .error (.resolution fault)
    | .ok composition => .ok composition

def Composition.ofText {T : Type} [TimeScalar T] (text : String) :
    Except CompositionFault (Composition T) :=
  match Xml.Source.ofMarkup text with
  | .error fault => .error (.markup fault)
  | .ok source => source.compose

end Cuesheet
