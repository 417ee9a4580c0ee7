import Cuesheet.Command.System
import Cuesheet.Composition.Report
import Cuesheet.Text.Pad

/-!
# The resolve command

Resolves a composition and prints when everything in it starts and ends, with the sampled lengths
of its pauses: as a table, or as data.
-/

namespace Cuesheet.Command

/-- What the resolve command is asked for. -/
structure ResolveOptions where
  source : String
  asData : Bool
  seed : Option Int

def resolveRules : List OptionRule :=
  [helpRule, ⟨["--json"], .flag⟩, ⟨["--seed"], .value⟩, ⟨["--verbose"], .flag⟩]

/-- Reads the options of the resolve command. -/
def ResolveOptions.ofStrings (args : List String) : Except Halt ResolveOptions :=
  match Parsed.ofStrings resolveRules 1 args with
  | .error halt => .error halt
  | .ok p =>
    match p.positionals, p.extras, (p.allValues "--seed").mapM Number.whole? with
    | [source], [], some seeds => .ok { source, asData := p.has "--json", seed := seeds.getLast? }
    | _, _, _ => .error .usage

/-! ## The table -/

def timeColumn : Option Float → String
  | none => "open"
  | some t => Number.fixedText 3 t ++ "s"

/-- A window in the table, the start in a column of ten. -/
def windowColumns (start stop : Option Float) : String :=
  Text.padLeft 10 (timeColumn start) ++ " -> " ++ timeColumn stop

/-- The lengths of the pauses of a composition. -/
abbrev Pauses := Sampling.Sampled Float

/-- The length of a sampled pause: zero for a cue without pauses. -/
def pauseSeconds (seconds : Option Float) : Float := seconds.getD 0.0

def pauseNote (pauses : Pauses) (cue : String) : String :=
  let seconds := pauseSeconds (pauses.value? cue).join
  if seconds == 0.0 then "" else "  (+" ++ Number.fixedText 3 seconds ++ "s pauses)"

def cueLine (pauses : Pauses) (cue : Cue Float) : String :=
  "    cue " ++ Text.padRight 19 cue.id ++ " " ++ windowColumns cue.start cue.stop
    ++ pauseNote pauses cue.id

def layerLine (layer : Layer Float) : String :=
  "    layer " ++ Text.padRight 17 layer.id ++ " " ++ windowColumns layer.start layer.stop

def componentLine (c : Component Float) : String :=
  "      " ++ Text.padRight 23 (c.type ++ "#" ++ c.id) ++ " " ++ windowColumns c.start c.stop

/-- A scene in the table, with everything in it. -/
def sceneLines (pauses : Pauses) (scene : Scene Float) : List String :=
  ("  scene " ++ Text.padRight 20 scene.id ++ " " ++ windowColumns (some scene.start) scene.stop)
    :: scene.cues.map (cueLine pauses) ++ scene.layers.map layerLine
    ++ scene.allComponents.map componentLine

/-- Whether a key is that of a pause between cues. -/
def isPauseKey (key : String) : Bool := 1 < (key.splitOn "/pause-").length

/-- The pauses between cues in the table. -/
def pauseLines (pauses : Pauses) : List String :=
  (List.filter (fun entry => isPauseKey entry.1) pauses).map fun (key, seconds) =>
    "  pause " ++ Text.padRight 20 key ++ " " ++ Number.fixedText 3 (pauseSeconds seconds) ++ "s"

/-- The line above the table. -/
def headLine (c : Composition Float) : Except ArithFault String :=
  c.fps.toFloat?.map fun fps =>
    c.id ++ "  " ++ c.width.text ++ "x" ++ c.height.text ++ " @ " ++ Number.generalText fps
      ++ "fps  duration " ++ timeColumn c.timelineDuration

/-! ## The data -/

/-- The length of a sampled pause as data: the integer zero for a cue without pauses. -/
def pauseDatum : Option Float → Datum
  | none => .number (.int 0)
  | some seconds => .number (.real seconds)

/-- A composition with the lengths of its pauses as data. -/
def timingDatum (c : Composition Float) (pauses : Pauses) : Datum :=
  .map (c.toFields ++
    [("sampled_pauses", .map (List.map (fun (key, seconds) => (key, pauseDatum seconds)) pauses))])

/-! ## The command -/

variable {m : Type → Type} [Monad m]

def printLines (sys : System m) : List String → CommandM m Unit
  | [] => pure ()
  | line :: rest => do
    sys.printLine line
    printLines sys rest

/-- The draws for a seed, which is not negative. -/
def drawsOf (sys : System m) : Option Int → CommandM m (Draws Float)
  | none => pure (sys.draws none)
  | some seed =>
    if seed < 0 then throw (.failed .negativeSeed) else pure (sys.draws (some seed.toNat))

def resolve (sys : System m) (options : ResolveOptions) : CommandM m Unit := do
  let text ← sys.readFile (Path.ofString options.source).text
  let c ← System.check .composition (Composition.ofText text)
  let seed ← System.check .arith (c.samplingSeed (options.seed.map .int))
  let draws ← drawsOf sys seed
  let pauses := (c.samplePauses draws).1
  if options.asData then sys.printLine (timingDatum c pauses).indented
  else
    let head ← System.check .arith (headLine c)
    printLines sys (head :: c.scenes.flatMap (sceneLines pauses) ++ pauseLines pauses)

end Cuesheet.Command
