import Cuesheet.Stage.Clocks

/-!
# Players on the stage

At every tick a player finds out what is active and tells what changed since its last tick:
first the components of the active scene, then the tick itself, then cues, then a change of scene,
and last the time. After each event come the handlers of the markup, those of the composition and
those of the scene or cue that the event is about. Listeners may do anything between two events,
so a player is looked up again after every one.
-/

namespace Cuesheet.Stage

variable {T C W : Type} [TimeScalar T]

def updatePlayer (key : Nat) (f : Player T C → Player T C) : Action T C W Unit :=
  modify fun s => s.modifyPlayer key f

/-- Does something with a player, if it is there. -/
def withPlayer (key : Nat) (act : Player T C → Action T C W Unit) : Action T C W Unit := do
  match (← get).players[key]? with
  | none => pure ()
  | some p => act p

/-! ## Events -/

/-- Gives code to the handler hook of a player. What goes wrong there is forgotten. -/
def invoke (react : React T C W) (key : Nat) (hook : C) (event : Option (PlayerEvent T))
    (scope : Scope) (target code : String) : Action T C W Unit :=
  withPlayer key fun p =>
    attempt (react hook (.handler {
      code
      event
      scope
      target
      timeline := if p.mounted then some p.group else none }))

/-- Gives several pieces of code to the handler hook of a player. -/
def invokeEach (react : React T C W) (key : Nat) (hook : C) (event : Option (PlayerEvent T))
    (scope : Scope) (target : String) : List String → Action T C W Unit
  | [] => pure ()
  | code :: rest => do
    invoke react key hook event scope target code
    invokeEach react key hook event scope target rest

/-- Runs the handlers of the scene or cue that an event is about. -/
def runScope (react : React T C W) (key : Nat) (hook : C) (event : PlayerEvent T) :
    Action T C W Unit :=
  withPlayer key fun p =>
    let scope := event.occurrence.scope
    match Player.scopeHandlers p.composition scope with
    | .error id => throw (.missing id)
    | .ok handlers =>
      invokeEach react key hook (some event) scope (scope.targetId p.composition.id)
        (Player.handlersOf handlers event)

def runHandlers (react : React T C W) (key : Nat) (event : PlayerEvent T) :
    Action T C W Unit :=
  withPlayer key fun p =>
    match p.options.handlerHook with
    | none => pure ()
    | some hook => do
      invokeEach react key hook (some event) .composition p.composition.id
        (Player.handlersOf p.composition.handlers event)
      runScope react key hook event

/-- Tells the listeners of a player about an event and runs its handlers. -/
def dispatch (react : React T C W) (key : Nat) (event : PlayerEvent T) : Action T C W Unit :=
  withPlayer key fun p => do
    tellAll react (.event event) (p.listenersTo event.kind)
    runHandlers react key event

/-- Gives scripts to the handler hook of a player, each with the composition played by then. -/
def runScript (react : React T C W) (key : Nat) (hook : C) : List String → Action T C W Unit
  | [] => pure ()
  | code :: rest => do
    withPlayer key fun p => invoke react key hook none .composition p.composition.id code
    runScript react key hook rest

def runScripts (react : React T C W) (key : Nat) : Action T C W Unit :=
  withPlayer key fun p =>
    match p.options.handlerHook with
    | none => pure ()
    | some hook => runScript react key hook p.composition.scripts

/-! ## Ticks -/

/-- Shows and hides components. -/
def turnComponents (react : React T C W) (key : Nat) (time : T) (frame : Int) :
    List (ComponentKey × TimedComponent T) → Action T C W Unit
  | [] => pure ()
  | (place, c) :: rest => do
    withPlayer key fun p => do
      let visible := c.isVisible time
      if visible != (p.visible.value? place).getD false then
        updatePlayer key fun p => { p with visible := p.visible.put place visible }
        dispatch react key ⟨.visibility place.1 c.id visible, time, frame⟩
      else pure ()
    turnComponents react key time frame rest

/-- Starts and ends cues. -/
def turnCues (react : React T C W) (key : Nat) (time : T) (frame : Int) :
    List (TimedCue T) → Action T C W Unit
  | [] => pure ()
  | cue :: rest => do
    withPlayer key fun p => do
      let active := cue.isActive time
      let wasActive := p.activeCues.contains cue.id
      if active && !wasActive then
        updatePlayer key fun p => { p with activeCues := p.activeCues ++ [cue.id] }
        dispatch react key ⟨.cueStart cue.id, time, frame⟩
      else if wasActive && !active then
        updatePlayer key fun p => { p with activeCues := p.activeCues.filter (· != cue.id) }
        dispatch react key ⟨.cueEnd cue.id, time, frame⟩
      else pure ()
    turnCues react key time frame rest

/-- Tells a player that an occurrence, if there is one, took place. -/
def dispatchIf (react : React T C W) (key : Nat) (time : T) (frame : Int) (id : Option String)
    (occurrence : String → Occurrence) : Action T C W Unit :=
  match id with
  | none => pure ()
  | some id => dispatch react key ⟨occurrence id, time, frame⟩

/-- Ends the scene that was active and starts the one that is. -/
def turnScene (react : React T C W) (key : Nat) (time : T) (frame : Int)
    (active : Option String) : Action T C W Unit :=
  withPlayer key fun p =>
    if active != p.activeScene then do
      updatePlayer key fun p => { p with activeScene := active }
      dispatchIf react key time frame p.activeScene .sceneEnd
      dispatchIf react key time frame active .sceneStart
    else pure ()

/-- The duration that is told with the time: zero if there is none. -/
def toldDuration (duration : Option T) : T :=
  match duration with
  | some d => if TimeScalar.beq d TimeScalar.zero then TimeScalar.zero else d
  | none => TimeScalar.zero

/-- The frames per second that a player counts in: those of its timeline if it is mounted. -/
def fpsOf (p : Player T C) : Action T C W Number := do
  if p.mounted then
    match (← get).timeline? p.group with
    | some tl => return tl.fps
    | none => return p.composition.fps
  else return p.composition.fps

def handleTick (react : React T C W) (key : Nat) (time : T) : Action T C W Unit :=
  withPlayer key fun p => do
    let fps ← fpsOf p
    let frame ← ofArith (TimeScalar.frameAt time fps)
    let active := p.composition.activeScene? time
    match active with
    | some scene => turnComponents react key time frame (keyed scene.id 0 scene.timedComponents)
    | none => pure ()
    dispatch react key ⟨.tick fps, time, frame⟩
    withPlayer key fun p => turnCues react key time frame p.composition.timedCues
    turnScene react key time frame (active.map Scene.id)
    withPlayer key fun p =>
      tell react p.options.onTimeUpdate (.timeUpdate time (toldDuration p.duration))

def hear (react : React T C W) (subscriber : Subscriber C) (time : T) : Action T C W Unit :=
  match subscriber with
  | .player key => handleTick react key time
  | .call c => react c (.tick time)

/-! ## Mounting -/

/-- The name of the private group with a number: ten hexadecimal digits. -/
def privateGroup (nonce : Nat) : String :=
  "timeline-" ++ String.ofList (Text.hexDigits 10 nonce)

/-- Makes a player: its key. Without a synchronization group it gets a private one. -/
def addPlayer (composition : Composition T) (options : PlayerOptions C) : Action T C W Nat := do
  let s ← get
  match options.syncGroup.filter fun group => !group.isEmpty with
  | some group => modify fun s => s.appendPlayer { composition, options, group }
  | none =>
    let group := privateGroup s.nonce
    modify fun s => { s.appendPlayer { composition, options, group } with nonce := s.nonce + 1 }
  return s.players.length

/-- Puts a player on the timeline of its group, which is made if need be, and starts it if the
player plays by itself. -/
def mount (react : React T C W) (key : Nat) : Action T C W Unit :=
  withPlayer key fun p =>
    if p.mounted then pure ()
    else do
      let owns := ((← get).timeline? p.group).isNone
      updatePlayer key fun p => { p with ownsTimeline := owns }
      let _ ← openTimeline p.group {
        fps := p.composition.fps
        mode := p.options.clockMode
        loop := p.options.loop
        duration := p.duration }
      updatePlayer key fun p => { p with mounted := true }
      subscribe p.group (.player key)
      tell react p.options.onError (.error none)
      runScripts react key
      if p.options.autoPlay then start p.group else pure ()

/-- Takes a player off its timeline, which stops if the player plays by itself and no subscriber
is left. -/
def unmount [DecidableEq C] (key : Nat) : Action T C W Unit :=
  withPlayer key fun p =>
    if !p.mounted then pure ()
    else do
      unsubscribe p.group (.player key)
      match (← get).timeline? p.group with
      | some tl =>
        if p.options.autoPlay && tl.subscribers.isEmpty then stop p.group else pure ()
      | none => pure ()
      updatePlayer key fun p => { p with mounted := false }

/-- Gives a player another composition. -/
def rebind (react : React T C W) (key : Nat) (composition : Composition T) :
    Action T C W Unit := do
  updatePlayer key fun p => p.bind composition
  withPlayer key fun p =>
    if p.mounted then do
      if p.ownsTimeline then
        modify fun s => s.modifyTimeline p.group fun tl => { tl with duration := p.duration }
      else pure ()
      runScripts react key
    else pure ()

end Cuesheet.Stage
