import Cuesheet.Composition.Basic
import Cuesheet.Resolution.Fault

/-!
# Attributes with a meaning of their own

The vocabulary of the markup: which tags contain timed children, which never become components,
and how flags, scales, handlers and properties are read from the attributes of an element.
-/

namespace Cuesheet

namespace Element

/-! ## Tags -/

/-- Whether a tag places the elements inside it in time: a sequence, a stack, or a scene inside a
scene, which is like a stack. -/
def isContainerTag (tag : String) : Bool := ["sequence", "stack", "scene"].contains tag

/-- Whether a tag has a meaning of its own and is never a component. -/
def isStructuralTag (tag : String) : Bool :=
  ["scene", "cue", "layer", "pause", "voice", "bullet", "voiceover", "script"].contains tag

/-! ## Attributes -/

def reservedAttributes : List String :=
  ["id", "visible", "z", "start", "end", "duration", "styles", "markup", "props"]

def handlerEvent? (name : String) : Option String :=
  match name.toList with
  | 'o' :: 'n' :: ':' :: event => some (String.ofList event)
  | _ => none

/-- The handlers of an element. Handlers without an event name or without code do not count. -/
def handlers (el : Element) : Handlers :=
  List.filterMap (fun (name, code) =>
    match handlerEvent? name with
    | some event => if event.isEmpty || code.isEmpty then none else some (event, code)
    | none => none) el.attributes

/-- A flag: set if the attribute is `true`, none without the attribute. -/
def flag? (el : Element) (name : String) : Option Bool := (el.get? name).map (· == "true")

/-- The time scale that an element sets, one if it sets none above zero. -/
def timeScale {T : Type} [TimeScalar T] (el : Element) : T :=
  match (el.getFirst? ["timeScale", "time-scale"]).bind RealLiteral.ofText? with
  | none => TimeScalar.one
  | some literal =>
    let scale : T := TimeScalar.ofLiteral literal
    if TimeScalar.lt TimeScalar.zero scale then scale else TimeScalar.one

def map? (el : Element) (name place : String) : Except ResolutionFault (Option Fields) :=
  match Attribute.map? (el.get? name) with
  | .error fault => .error (.badMap (place ++ ": " ++ name) fault)
  | .ok fields => .ok fields

def number? (raw : Option String) : Except ResolutionFault (Option Number) :=
  match Number.ofAttribute? raw with
  | .error fault => .error (.arith fault)
  | .ok n => .ok n

def addProps (props : Fields) : List (String × String) → Except ResolutionFault Fields
  | [] => .ok props
  | (name, value) :: rest =>
    if reservedAttributes.contains name || (handlerEvent? name).isSome then addProps props rest
    else
      match Attribute.coerce value with
      | .error fault => .error (.arith fault)
      | .ok d => addProps (props.put (Text.camelCase name) d) rest

/-- The properties of a component: those in its `props` map, then its other attributes. -/
def props (el : Element) (place : String) : Except ResolutionFault Fields :=
  match el.map? "props" place with
  | .error fault => .error fault
  | .ok fields => addProps (fields.getD []) el.attributes

/-- A positive number, or a default without the attribute. -/
def positiveNumber (el : Element) (name : String) (default : Number) :
    Except ResolutionFault Number :=
  match el.get? name with
  | none => .ok default
  | some raw =>
    match Number.plain? raw with
    | .error fault => .error (.arith fault)
    | .ok none => .error (.notPositive el.tag name raw)
    | .ok (some n) => if n.isNonpositive then .error (.notPositive el.tag name raw) else .ok n

/-- The words of an element, with single blanks between them. -/
def words (el : Element) : String := Text.collapse el.text

end Element

end Cuesheet
