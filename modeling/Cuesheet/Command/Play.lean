import Cuesheet.Command.System
import Cuesheet.Stage.Frames
import Cuesheet.Stage.Loading
import Cuesheet.Text.Pad

/-!
# The play command

Mounts the players of a manifest, runs their clocks and prints what becomes active and what ceases
to be. Time is simulated frame by frame, unless the clocks are to run in real time.
-/

namespace Cuesheet.Command

/-- What the play command is asked for. -/
structure PlayOptions where
  manifest : String
  seconds : Option Float
  realTime : Bool

def playRules : List OptionRule :=
  [helpRule, ⟨["--manifest"], .value⟩, ⟨["--seconds"], .value⟩, ⟨["--realtime"], .flag⟩,
    ⟨["--verbose"], .flag⟩]

/-- Reads the options of the play command. -/
def PlayOptions.ofStrings (args : List String) : Except Halt PlayOptions :=
  match Parsed.ofStrings playRules 0 args with
  | .error halt => .error halt
  | .ok p =>
    match p.extras, p.value? "--manifest", (p.allValues "--seconds").mapM RealLiteral.ofText? with
    | [], some manifest, some seconds =>
      .ok {
        manifest
        seconds := seconds.getLast?.map RealLiteral.toFloat
        realTime := p.has "--realtime" }
    | _, _, _ => .error .usage

/-! ## What is printed -/

inductive Printer where
  /-- What goes wrong. -/
  | errors (label : String)
  | events (label : String)
  deriving DecidableEq, Repr

def printedEvents : List EventKind := [.sceneStart, .sceneEnd, .cueStart, .cueEnd, .visibilityChange]

def subject : Occurrence → String
  | .tick _ => ""
  | .sceneStart id => id
  | .sceneEnd id => id
  | .cueStart id => id
  | .cueEnd id => id
  | .visibility scene component visible =>
    scene ++ "/" ++ component ++ (if visible then " shown" else " hidden")

def eventLine (label : String) (event : PlayerEvent Float) : String :=
  "[" ++ label ++ "] " ++ Text.padLeft 8 (Number.fixedText 3 event.time) ++ "s  f"
    ++ Text.padRight 6 (Number.intText event.frame) ++ " " ++ Text.padRight 18 event.kind.text
    ++ " " ++ subject event.occurrence

/-- The line that a notice prints, if any. -/
def noticeLine : Printer → Notice Float → Option String
  | .errors label, .error (some message) =>
    if message.isEmpty then none else some ("[" ++ label ++ "] error: " ++ message)
  | .events label, .event event => some (eventLine label event)
  | _, _ => none

/-- The stage of a playback, with the lines that are to be printed. -/
abbrev PlayStage := Stage Float Printer (List String)

/-- Notes the line of a notice. -/
def note : React Float Printer (List String) := fun printer notice =>
  match noticeLine printer notice with
  | none => pure ()
  | some line => modify fun s => { s with outside := s.outside ++ [line] }

/-! ## The command -/

variable {m : Type → Type} [Monad m]

/-- Prints the lines that were noted. -/
def printNoted (sys : System m) : List String → CommandM m Unit
  | [] => pure ()
  | line :: rest => do
    sys.printLine line
    printNoted sys rest

/-- Acts on the stage and prints what was noted meanwhile. -/
def act {α : Type} (sys : System m) (stage : PlayStage)
    (action : Action Float Printer (List String) α) : CommandM m (α × PlayStage) := do
  match action stage with
  | .ok a stage =>
    printNoted sys stage.outside
    return (a, { stage with outside := [] })
  | .error fault stage =>
    printNoted sys stage.outside
    throw (.failed (.stage fault))

def playerOptions (label : String) (entry : PlayerEntry) : PlayerOptions Printer :=
  { autoPlay := entry.autoPlay
    clockMode := entry.clockMode.text
    loop := entry.loop
    syncGroup := entry.syncGroup
    onError := some (.errors label) }

def mountedLine (label : String) (entry : PlayerEntry) (p : Player Float Printer) : String :=
  "[" ++ label ++ "] mounted " ++ p.composition.id ++ " on " ++ p.group ++ " ("
    ++ entry.clockMode.text ++ ", duration "
    ++ (match p.duration with
      | some d => Number.floatText d
      | none => "None")
    ++ ")"

/-- Makes the events of a player be printed. -/
def listenAll (label : String) (p : Player Float Printer) : Player Float Printer :=
  printedEvents.foldl (fun p kind => p.listen kind (.events label)) p

/-- Loads and mounts players, numbered from `index`: the hosts of those that were mounted. -/
def mountEach (sys : System m) (index : Nat) (stage : PlayStage) (hosts : List Nat) :
    List PlayerEntry → CommandM m (List Nat × PlayStage)
  | [] => return (hosts, stage)
  | entry :: rest => do
    let label := "p" ++ Number.intText index
    let (host, stage) ← act sys stage (Stage.addHost (playerOptions label entry))
    let fetched ← sys.fetch (Source.ofString entry.source)
    let (result, stage) ← act sys stage (Stage.load note host fetched)
    match result with
    | .mounted key =>
      let stage := stage.modifyPlayer key (listenAll label)
      match stage.players[key]? with
      | some p => sys.printLine (mountedLine label entry p)
      | none => pure ()
      mountEach sys (index + 1) stage (hosts ++ [host]) rest
    | _ => mountEach sys (index + 1) stage hosts rest

/-- Closes hosts one after the other. -/
def closeEach : List Nat → Action Float Printer (List String) Unit
  | [] => pure ()
  | host :: rest => do
    Stage.closeHost host
    closeEach rest

def simulate (sys : System m) (manifest : PlaybackManifest) (seconds : Float) :
    CommandM m Unit := do
  let stage : PlayStage := { source := .atTime 0.0, nonce := sys.nonce, outside := [] }
  let (hosts, stage) ← mountEach sys 0 stage [] manifest.players
  let (frames, stage) ← act sys stage (Stage.run note seconds manifest.refreshHz)
  sys.printLine ("Simulated " ++ Number.intText frames ++ " frames")
  let _ ← act sys stage (closeEach hosts)

def nextDue (stage : PlayStage) : Option Float :=
  match stage.source with
  | .paced _ _ queue => (FrameSource.earliest? queue.waiting).map fun entry => entry.2.1
  | _ => none

/-- Serves the frames that are due before the end, each at its time, up to a number of them. -/
def serveUntil (sys : System m) (seconds : Float) : Nat → PlayStage → CommandM m PlayStage
  | 0, stage => return stage
  | left + 1, stage => do
    match nextDue stage with
    | none => return stage
    | some due =>
      if due < seconds then
        sys.waitUntil due
        let (_, stage) ← act sys stage (Stage.fire note)
        serveUntil sys seconds left stage
      else return stage

/-- How many frames may be served in a playback: all that the players can request. -/
def frameLimit (manifest : PlaybackManifest) (seconds : Float) : Nat :=
  match Number.floorFloat (seconds * manifest.refreshHz) with
  | .ok n => (n.toNat + 2) * (manifest.players.length + 1)
  | .error _ => 0

/-- Plays in real time. -/
def playLive (sys : System m) (manifest : PlaybackManifest) (seconds : Float) :
    CommandM m Unit := do
  match FrameSource.atRate? 0.0 manifest.refreshHz with
  | none => throw (.failed (.stage (.clock (.badRefresh manifest.refreshHz))))
  | some source =>
    let stage : PlayStage := { source, nonce := sys.nonce, outside := [] }
    let (hosts, stage) ← mountEach sys 0 stage [] manifest.players
    let stage ← serveUntil sys seconds (frameLimit manifest seconds) stage
    sys.waitUntil seconds
    let _ ← act sys stage (do closeEach hosts; Stage.stopAll)

def play (sys : System m) (options : PlayOptions) : CommandM m Unit := do
  let data ← sys.readManifest options.manifest
  let directory := (Path.ofString options.manifest).parent
  let manifest ← System.check .playback (PlaybackManifest.ofDatum directory data)
  let seconds := options.seconds.getD manifest.seconds
  if seconds ≤ 0.0 then throw (.exit 2)
  else
    sys.printLine ("Playing " ++ Number.intText manifest.players.length ++ " player(s) for "
      ++ Number.generalText seconds ++ "s")
    if options.realTime then playLive sys manifest seconds else simulate sys manifest seconds

end Cuesheet.Command
