import Cuesheet.Clock.Mode
import Cuesheet.Player.Activation
import Cuesheet.Player.Event

/-!
# Players

A player plays one composition on the clock of its synchronization group and remembers what was
active at its last tick, so that it can tell what changed. Those who want to hear from it are
named by callbacks, whose type is left open.
-/

namespace Cuesheet

/-- How a player plays, and whom it tells. -/
structure PlayerOptions (C : Type) where
  autoPlay : Bool := true
  /-- The mode of the clock if the player has to make one. -/
  clockMode : String := ClockMode.live.text
  loop : Bool := false
  /-- The synchronization group; none for a private one. -/
  syncGroup : Option String := none
  /-- Told the time and the duration after every tick. -/
  onTimeUpdate : Option C := none
  /-- Told what went wrong, or nothing when the player is mounted. -/
  onError : Option C := none
  /-- Given handlers and scripts to run. -/
  handlerHook : Option C := none
  deriving Repr

/-- Code from the markup that is to be run. -/
structure Invocation (T : Type) where
  code : String
  /-- The event whose handler the code is; none for a script. -/
  event : Option (PlayerEvent T)
  scope : Scope
  /-- The id of the element that the code belongs to. -/
  target : String
  /-- The clock of the player, if it is mounted. -/
  timeline : Option String
  deriving Repr

def Invocation.eventName {T : Type} (invocation : Invocation T) : String :=
  match invocation.event with
  | some event => event.kind.text
  | none => "script"

structure Player (T C : Type) where
  composition : Composition T
  options : PlayerOptions C
  group : String
  mounted : Bool := false
  /-- Whether the player made the clock of its group when it was mounted. -/
  ownsTimeline : Bool := false
  activeScene : Option String := none
  activeCues : List String := []
  visible : Entries ComponentKey Bool := []
  listeners : List (EventKind × C) := []
  deriving Repr

namespace Player

variable {T C : Type}

/-- How long the composition plays. -/
def duration [TimeScalar T] (p : Player T C) : Option T := p.composition.timelineDuration

/-- Whether a component was visible when the scene was last active; any of several with one id. -/
def isVisible (p : Player T C) (scene component : String) : Bool :=
  p.visible.any fun (key, visible) => visible && key.1 == scene && key.2.2 == component

/-- The player with another composition. What was active is kept as far as it is there. -/
def bind (p : Player T C) (c : Composition T) : Player T C :=
  let cueIds := c.timedCues.map TimedCue.id
  { p with
    composition := c
    activeScene := p.activeScene.filter fun id => c.scenes.any fun scene => scene.id == id
    activeCues := p.activeCues.filter cueIds.contains
    visible := p.visible.filter fun entry => c.componentKeys.contains entry.1 }

/-- Those who listen to a kind of event, in the order in which they began. -/
def listenersTo (p : Player T C) (kind : EventKind) : List C :=
  p.listeners.filterMap fun (k, c) => if k == kind then some c else none

def listen (p : Player T C) (kind : EventKind) (c : C) : Player T C :=
  { p with listeners := p.listeners ++ [(kind, c)] }

/-- Removes a listener, once. -/
def unlisten [DecidableEq C] (p : Player T C) (kind : EventKind) (c : C) : Player T C :=
  { p with listeners := p.listeners.erase (kind, c) }

/-! ## Handlers -/

/-- The handlers among some that an event runs. -/
def handlersOf (handlers : Handlers) (event : PlayerEvent T) : List String :=
  handlers.filterMap fun (name, code) =>
    if handlerEvent name == event.kind.text then some code else none

/-- The handlers of the element that an event is about. A scene or a cue that the composition does
not have is an error. -/
def scopeHandlers (c : Composition T) : Scope → Except String Handlers
  | .composition => .ok []
  | .scene id =>
    match c.scene? id with
    | some scene => .ok scene.handlers
    | none => .error id
  | .cue id =>
    match c.cue? id with
    | some cue => .ok cue.handlers
    | none => .error id

end Player

/-- The id of the element that a scope names. -/
def Scope.targetId (scope : Scope) (composition : String) : String :=
  match scope with
  | .composition => composition
  | .scene id => id
  | .cue id => id

def Scope.text : Scope → String
  | .composition => "composition"
  | .scene _ => "scene"
  | .cue _ => "cue"

/-! ## Listening by name -/

structure UnknownEvent where
  name : String
  deriving DecidableEq, Repr

def UnknownEvent.message (fault : UnknownEvent) : String :=
  "Unknown event '" ++ fault.name ++ "'. Expected one of " ++ EventKind.choices

/-- The event kind that a listener names. -/
def EventKind.ofName (name : String) : Except UnknownEvent EventKind :=
  match EventKind.ofString? name with
  | some kind => .ok kind
  | none => .error ⟨name⟩

end Cuesheet
