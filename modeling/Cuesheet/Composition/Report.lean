import Cuesheet.Composition.Basic
import Cuesheet.Data.Writer

/-!
# Compositions as data

The fields of a composition under the names that reports give them, in the order in which reports
list them.
-/

namespace Cuesheet

namespace Report

/-- A time, or null. -/
def time? : Option Float → Datum
  | none => .null
  | some t => .number (.real t)

def time (t : Float) : Datum := .number (.real t)

/-- A text, or null. -/
def text? : Option String → Datum
  | none => .null
  | some s => .text s

/-- A number, or null. -/
def number? : Option Number → Datum
  | none => .null
  | some n => .number n

/-- A boolean, or null. -/
def bool? : Option Bool → Datum
  | none => .null
  | some b => .bool b

/-- A map, or null. -/
def map? : Option Fields → Datum
  | none => .null
  | some fields => .map fields

def handlers (hs : Handlers) : Datum := .map (List.map (fun (name, code) => (name, .text code)) hs)

end Report

open Report

def Pause.toDatum : Pause Float → Datum
  | .fixed seconds =>
    .map [("seconds", time seconds), ("kind", .text "pause"), ("mode", .text "fixed")]
  | .gaussian mean std min max =>
    .map [("mean", time mean), ("std", time std), ("min", time? min), ("max", time? max),
      ("kind", .text "pause"), ("mode", .text "gaussian")]

def Segment.toDatum : Segment Float → Datum
  | .text words trimEnd =>
    .map [("text", .text words), ("trim_end", time? trimEnd), ("kind", .text "text")]
  | .pause p => .map [("pause", p.toDatum), ("kind", .text "pause")]

def Cue.toDatum (cue : Cue Float) : Datum :=
  .map [("id", .text cue.id), ("label", .text cue.label),
    ("segments", .list (cue.segments.map Segment.toDatum)),
    ("bullets", .list (cue.bullets.map .text)), ("provider", text? cue.provider),
    ("start", time? cue.start), ("end", time? cue.stop), ("handlers", Report.handlers cue.handlers),
    ("kind", .text "cue")]

def SceneItem.toDatum : SceneItem Float → Datum
  | .cue c => c.toDatum
  | .pause p => p.toDatum

def Component.toDatum (c : Component Float) : Datum :=
  .map [("id", .text c.id), ("type", .text c.type), ("props", .map c.props),
    ("start", time? c.start), ("end", time? c.stop), ("visible", bool? c.visible),
    ("z", Report.number? c.z), ("styles", map? c.styles), ("markup", map? c.markup),
    ("text", .text c.text), ("handlers", Report.handlers c.handlers)]

def Layer.toDatum (layer : Layer Float) : Datum :=
  .map [("id", .text layer.id), ("start", time? layer.start), ("end", time? layer.stop),
    ("visible", bool? layer.visible), ("z", Report.number? layer.z),
    ("styles", map? layer.styles), ("markup", map? layer.markup),
    ("components", .list (layer.components.map Component.toDatum))]

def Scene.toDatum (scene : Scene Float) : Datum :=
  .map [("id", .text scene.id), ("title", .text scene.title), ("start", time scene.start),
    ("end", time? scene.stop), ("items", .list (scene.items.map SceneItem.toDatum)),
    ("layers", .list (scene.layers.map Layer.toDatum)),
    ("components", .list (scene.components.map Component.toDatum)),
    ("styles", map? scene.styles), ("markup", map? scene.markup),
    ("handlers", Report.handlers scene.handlers)]

def Voiceover.toDatum (v : Voiceover Float) : Datum :=
  .map [("provider", text? v.provider), ("voice", text? v.voice), ("model", text? v.model),
    ("format", text? v.format), ("sample_rate_hz", Report.number? v.sampleRateHz),
    ("seed", Report.number? v.seed), ("lead_in_seconds", time? v.leadInSeconds),
    ("trim_end_seconds", time? v.trimEndSeconds)]

def Composition.toFields (c : Composition Float) : Fields :=
  [("id", .text c.id), ("title", text? c.title), ("fps", .number c.fps),
    ("width", .number c.width), ("height", .number c.height),
    ("scenes", .list (c.scenes.map Scene.toDatum)), ("duration", time? c.duration),
    ("poster", time? c.poster),
    ("voiceover", match c.voiceover with
      | none => .null
      | some v => v.toDatum),
    ("handlers", Report.handlers c.handlers), ("scripts", .list (c.scripts.map .text))]

end Cuesheet
