import Cuesheet.Resolution.Attribute

/-!
# One attempt at a scene

An attempt evaluates every formula of a scene against the times known so far and what it has
learnt itself: the start and end of the scene, and the starts of the cues it has passed. It gives
the scene, waits for a time that is not known, or fails. Nothing it has learnt outlives it.

Offsets are relative to what contains them, and anchored formulas are absolute. A sequence places
its children end to end, a stack places all of them at its start. The offsets and durations of
cues are scaled; those of layers, containers and components are not.
-/

namespace Cuesheet

structure Setting (T : Type) where
  /-- The times known so far, those of the neighbouring scenes included. -/
  known : Known T
  /-- The ids of cues in scenes that are resolved. -/
  takenCues : List String
  isFirst : Bool
  /-- The time scale around the scene. -/
  scale : T

/-- What an attempt has learnt so far. -/
structure Draft (T : Type) where
  sceneStart : Entries String T := []
  sceneEnd : Entries String T := []
  cueStarts : Entries String T := []
  cueIds : List String := []
  /-- The ends of everything timed inside the scene, in order. -/
  ends : List T := []
  /-- The number of components so far. -/
  components : Nat := 0

abbrev Attempt (T : Type) := StateT (Draft T) (Except AttemptStop)

namespace Attempt

variable {T : Type} [TimeScalar T]

/-! ## Formulas -/

/-- What is known at this point of the attempt; what it has learnt itself comes first. -/
def knownNow (setting : Setting T) (draft : Draft T) : Known T :=
  { setting.known with
    sceneStart := fun id => (draft.sceneStart.value? id).or (setting.known.sceneStart id)
    sceneEnd := fun id => (draft.sceneEnd.value? id).or (setting.known.sceneEnd id)
    cueStart := fun id => (draft.cueStarts.value? id).or (setting.known.cueStart id) }

/-- The value of a formula at this point of the attempt. -/
def evaluate (setting : Setting T) (raw : String) : Attempt T T := do
  match evaluateTime (knownNow setting (← get)) raw with
  | .ok t => return t
  | .error stop => throw (stop.mapWrong .time)

/-- The time in an attribute, if there is one. -/
def time? (setting : Setting T) (el : Element) (name : String) : Attempt T (Option T) :=
  match el.get? name with
  | none => return none
  | some raw => return some (← evaluate setting raw)

/-- Whether a formula that has a value is anchored. -/
def isAnchored (raw : String) : Bool :=
  match Expr.ofText raw with
  | .ok e => e.isAnchored
  | .error _ => false

/-- The absolute time in an attribute: an offset from `base`, scaled, or an anchored time. -/
def place? (setting : Setting T) (el : Element) (name : String) (base scale : T) :
    Attempt T (Option T) :=
  match el.get? name with
  | none => return none
  | some raw => do
    let value ← evaluate setting raw
    if isAnchored raw then return some value
    else return some (TimeScalar.add base (TimeScalar.mul value scale))

/-- The end that is given by a duration after a start, if there is one. -/
def durationEnd? (setting : Setting T) (el : Element) (start scale : T) :
    Attempt T (Option T) := do
  match ← time? setting el "duration" with
  | none => return none
  | some duration => return some (TimeScalar.add start (TimeScalar.mul duration scale))

def fail {α : Type} (fault : ResolutionFault) : Attempt T α := throw (.wrong fault)

/-- A result that does not depend on times. -/
def ofExcept {α : Type} : Except ResolutionFault α → Attempt T α
  | .ok a => return a
  | .error fault => throw (.wrong fault)

/-- Notes the end of something timed. -/
def noteEnd (stop : Option T) : Attempt T Unit :=
  match stop with
  | none => return ()
  | some t => modify fun draft => { draft with ends := draft.ends ++ [t] }

/-! ## Cues and pauses -/

def pause (setting : Setting T) (el : Element) (place : String) : Attempt T (Pause T) := do
  match ← time? setting el "seconds" with
  | some seconds => return .fixed seconds
  | none =>
    if el.has "mean" && el.has "std" then
      match ← time? setting el "mean", ← time? setting el "std" with
      | some mean, some std =>
        let min ← time? setting el "min"
        let max ← time? setting el "max"
        return .gaussian mean std min max
      | _, _ => fail (.incompletePause place)
    else fail (.incompletePause place)

/-- What a cue holds besides its times. -/
structure CueContent (T : Type) where
  segments : List (Segment T) := []
  bullets : List String := []

/-- The segments and bullets of a cue. -/
def cueContent (setting : Setting T) (place : String) :
    List Element → Attempt T (CueContent T)
  | [] => return {}
  | child :: rest => do
    if child.tag == "voice" then
      let text := child.words
      if text.isEmpty then cueContent setting place rest
      else
        let trimEnd ← time? setting child "trim-end"
        let content ← cueContent setting place rest
        return { content with segments := .text text trimEnd :: content.segments }
    else if child.tag == "pause" then
      let p ← pause setting child place
      let content ← cueContent setting place rest
      return { content with segments := .pause p :: content.segments }
    else if child.tag == "bullet" then
      let content ← cueContent setting place rest
      let text := child.words
      return if text.isEmpty then content
        else { content with bullets := text :: content.bullets }
    else cueContent setting place rest

def cueTimes (setting : Setting T) (el : Element) (id : String) (sceneStart scale : T) :
    Attempt T (Option T × Option T) := do
  match ← place? setting el "start" sceneStart scale with
  | none =>
    if el.has "end" || el.has "duration" then fail (.cueWithoutStart id)
    else return (none, none)
  | some start =>
    modify fun draft => { draft with cueStarts := draft.cueStarts.put id start }
    let placed ← place? setting el "end" sceneStart scale
    let stop ← match placed with
      | some t => pure (some t)
      | none => durationEnd? setting el start scale
    noteEnd stop
    return (some start, stop)

def cue (setting : Setting T) (el : Element) (sceneStart scale : T) (place : String) :
    Attempt T (Cue T) := do
  match el.get? "id" with
  | none => fail (.cueWithoutId place)
  | some id =>
    if setting.takenCues.contains id || (← get).cueIds.contains id then fail (.duplicateCue id)
    else
      modify fun draft => { draft with cueIds := id :: draft.cueIds }
      let (start, stop) ← cueTimes setting el id sceneStart scale
      let content ← cueContent setting place el.children
      return {
        id
        label := (el.get? "label").getD id
        segments := content.segments
        bullets := content.bullets
        provider := el.get? "provider"
        start
        stop
        handlers := el.handlers }

/-! ## Components and containers -/

/-- How the children of a container follow each other. -/
inductive Flow where
  | sequence
  | stack
  deriving DecidableEq, Repr

/-- What an element takes over from what contains it. -/
structure Surroundings (T : Type) where
  /-- The start of the container. -/
  base : T
  flow : Flow := .stack
  styles : Option Fields := none
  markup : Option Fields := none
  /-- How long a child of a sequence lasts that does not say so. -/
  defaultChild : T
  /-- Names the place in messages. -/
  place : String

/-- The start and the explicit end of an element placed at `base`. An end wins over a duration. -/
def window (setting : Setting T) (el : Element) (base : T) : Attempt T (T × Option T) := do
  let start := (← place? setting el "start" base TimeScalar.one).getD base
  match ← place? setting el "end" base TimeScalar.one with
  | some stop => return (start, some stop)
  | none =>
    match ← time? setting el "duration" with
    | none => return (start, none)
    | some duration => return (start, some (TimeScalar.add start duration))

/-- Where an element goes: to the cursor in a sequence, to the base in a stack. -/
def Surroundings.ownBase (around : Surroundings T) (cursor : T) : T :=
  match around.flow with
  | .sequence => cursor
  | .stack => around.base

/-- The number of the next component of the scene. -/
def nextIndex : Attempt T Nat := do
  let draft ← get
  set { draft with components := draft.components + 1 }
  return draft.components

/-- A component. In a sequence it always has an end. -/
def component (setting : Setting T) (around : Surroundings T) (cursor : T) (el : Element) :
    Attempt T (Component T) := do
  let (start, explicit) ← window setting el (around.ownBase cursor)
  let stop := match explicit, around.flow with
    | some t, _ => some t
    | none, .sequence => some (TimeScalar.add start around.defaultChild)
    | none, .stack => none
  noteEnd stop
  let index ← nextIndex
  let id := (el.get? "id").getD (el.tag ++ "-" ++ Number.intText index)
  let place := around.place ++ ", " ++ el.tag ++ " '" ++ id ++ "'"
  let props ← ofExcept (el.props place)
  let z ← ofExcept (Element.number? (el.get? "z"))
  let styles ← ofExcept (el.map? "styles" place)
  let markup ← ofExcept (el.map? "markup" place)
  return {
    id
    type := Text.pascalCase el.tag
    props
    start := some start
    stop
    visible := el.flag? "visible"
    z
    styles := Fields.cascade around.styles styles
    markup := Fields.cascade around.markup markup
    text := el.words
    handlers := el.handlers }

/-- What the children of a container come to. -/
structure Placed (T : Type) where
  components : List (Component T)
  /-- Where the next child of a sequence would go. -/
  cursor : T
  /-- The latest end of a child. -/
  latest : Option T

/-- The end of a container that does not give one. -/
def Placed.implicitEnd (placed : Placed T) (flow : Flow) : Option T :=
  match flow, placed.latest with
  | .sequence, some _ => some placed.cursor
  | _, latest => latest

/-- The cursor after a child: in a sequence the end of the child, if it has one. -/
def advance (flow : Flow) (cursor : T) : Option T → T
  | none => cursor
  | some stop =>
    match flow with
    | .sequence => stop
    | .stack => cursor

/-- How long a child of a container lasts that does not say so. -/
def defaultChildOf (setting : Setting T) (el : Element) : Attempt T T := do
  match ← time? setting el "default-child-duration" with
  | some t => return t
  | none => return (← time? setting el "defaultChildDuration").getD TimeScalar.one

/-- What a container passes on to its children. -/
def surroundingsOf (setting : Setting T) (around : Surroundings T) (start : T) (el : Element) :
    Attempt T (Surroundings T) := do
  let styles ← ofExcept (el.map? "styles" around.place)
  let markup ← ofExcept (el.map? "markup" around.place)
  let defaultChild ← defaultChildOf setting el
  return {
    base := start
    flow := if el.tag == "sequence" then .sequence else .stack
    styles := Fields.cascade around.styles styles
    markup := Fields.cascade around.markup markup
    defaultChild
    place := around.place }

mutual

/-- The components in a container, and its end. -/
def container (setting : Setting T) (around : Surroundings T) (cursor : T) :
    Element → Attempt T (List (Component T) × Option T)
  | ⟨tag, attributes, children, text⟩ => do
    let el : Element := ⟨tag, attributes, children, text⟩
    let (start, explicit) ← window setting el (around.ownBase cursor)
    let inner ← surroundingsOf setting around start el
    let placed ← contained setting inner start none children
    let stop := explicit.or (placed.implicitEnd inner.flow)
    noteEnd stop
    return (placed.components, stop)

/-- The components among the children of a container. Elements with a meaning of their own are
skipped. -/
def contained (setting : Setting T) (around : Surroundings T) (cursor : T) (latest : Option T) :
    List Element → Attempt T (Placed T)
  | [] => return { components := [], cursor, latest }
  | child :: rest => do
    if Element.isContainerTag child.tag then
      let (found, stop) ← container setting around cursor child
      let placed ← contained setting around (advance around.flow cursor stop)
        (TimeScalar.laterEnd latest stop) rest
      return { placed with components := found ++ placed.components }
    else if Element.isStructuralTag child.tag then contained setting around cursor latest rest
    else
      let c ← component setting around cursor child
      let placed ← contained setting around (advance around.flow cursor c.stop)
        (TimeScalar.laterEnd latest c.stop) rest
      return { placed with components := c :: placed.components }

end

/-- What lies directly in a scene or a layer takes over. -/
def top (start : T) (place : String) : Surroundings T :=
  { base := start, defaultChild := TimeScalar.one, place }

def layer (setting : Setting T) (el : Element) (sceneStart : T) (scenePlace : String) :
    Attempt T (Layer T) := do
  match el.get? "id" with
  | none => fail (.layerWithoutId scenePlace)
  | some id =>
    let place := scenePlace ++ ", layer '" ++ id ++ "'"
    let (start, explicit) ← window setting el sceneStart
    let placed ← contained setting (top start place) start none el.children
    let stop := explicit.or placed.latest
    noteEnd stop
    let z ← ofExcept (Element.number? (el.get? "z"))
    let styles ← ofExcept (el.map? "styles" place)
    let markup ← ofExcept (el.map? "markup" place)
    return {
      id
      start := some start
      stop
      visible := el.flag? "visible"
      z
      styles
      markup
      components := placed.components }

/-! ## Scenes -/

/-- What the children of a scene come to. -/
structure SceneContent (T : Type) where
  items : List (SceneItem T) := []
  layers : List (Layer T) := []
  components : List (Component T) := []

/-- The cues, pauses, layers and components of a scene. -/
def sceneContent (setting : Setting T) (start scale : T) (place : String) :
    List Element → Attempt T (SceneContent T)
  | [] => return {}
  | child :: rest => do
    if child.tag == "cue" then
      let c ← cue setting child start scale place
      let content ← sceneContent setting start scale place rest
      return { content with items := .cue c :: content.items }
    else if child.tag == "pause" then
      let p ← pause setting child place
      let content ← sceneContent setting start scale place rest
      return { content with items := .pause p :: content.items }
    else if child.tag == "layer" then
      let l ← layer setting child start place
      let content ← sceneContent setting start scale place rest
      return { content with layers := l :: content.layers }
    else if Element.isContainerTag child.tag then
      let (found, _) ← container setting (top start place) start child
      let content ← sceneContent setting start scale place rest
      return { content with components := found ++ content.components }
    else if Element.isStructuralTag child.tag then sceneContent setting start scale place rest
    else
      let c ← component setting (top start place) start child
      let content ← sceneContent setting start scale place rest
      return { content with components := c :: content.components }

/-- The start of a scene: as given, zero for the first scene, else the end of the scene before, or
its start if it is open. -/
def sceneStart (setting : Setting T) (el : Element) : Attempt T T := do
  match ← time? setting el "start" with
  | some start => return start
  | none =>
    if setting.isFirst then return TimeScalar.zero
    else
      match setting.known.prevStart with
      | none => throw (.waiting .prevEnd)
      | some start => return setting.known.prevEnd.getD start

/-- The explicit end of a scene. An end wins over a duration. -/
def sceneEnd (setting : Setting T) (el : Element) (start scale : T) : Attempt T (Option T) := do
  match ← time? setting el "end" with
  | some stop => return some stop
  | none => durationEnd? setting el start scale

/-- Notes the explicit end of a scene, if it has one. -/
def noteSceneEnd (id : String) : Option T → Attempt T Unit
  | none => return ()
  | some stop => modify fun draft => { draft with sceneEnd := [(id, stop)] }

/-- A scene may not end before it starts. -/
def checkEnd (place : String) (start : T) : Option T → Attempt T Unit
  | none => return ()
  | some stop =>
    if TimeScalar.lt stop start then
      fail (.endBeforeStart place (TimeScalar.text stop) (TimeScalar.text start))
    else return ()

/-- The scene that its content comes to. Without an explicit end it ends at the latest end of
anything timed inside it. -/
def closeScene (id : String) (el : Element) (place : String) (start : T) (explicit : Option T)
    (content : SceneContent T) : Attempt T (Scene T) := do
  let stop := explicit.or (TimeScalar.latest? (← get).ends)
  checkEnd place start stop
  let styles ← ofExcept (el.map? "styles" place)
  let markup ← ofExcept (el.map? "markup" place)
  return {
    id
    title := (el.get? "title").getD id
    start
    stop
    items := content.items
    layers := content.layers
    components := content.components
    styles
    markup
    handlers := el.handlers }

def scene (setting : Setting T) (id : String) (el : Element) : Attempt T (Scene T) := do
  let place := "Scene '" ++ id ++ "'"
  let start ← sceneStart setting el
  modify fun draft => { draft with sceneStart := [(id, start)] }
  let scale := TimeScalar.mul setting.scale el.timeScale
  let explicit ← sceneEnd setting el start scale
  noteSceneEnd id explicit
  let content ← sceneContent setting start scale place el.children
  closeScene id el place start explicit content

def run (setting : Setting T) (id : String) (el : Element) : Except AttemptStop (Scene T) :=
  (scene setting id el {}).map (·.1)

end Attempt

end Cuesheet
