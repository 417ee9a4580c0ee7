import Cuesheet.Composition.Report
import Cuesheet.Markup.Report
import Cuesheet.Stage.Basic

/-!
# The stage as data

What happens and what is live, in the form in which reports show it.
-/

namespace Cuesheet

def PlayerEvent.toFields (event : PlayerEvent Float) : Fields :=
  let time := Report.time event.time
  let frame := Datum.number (.int event.frame)
  match event.occurrence with
  | .tick fps => [("frame", frame), ("time", time), ("fps", .number fps)]
  | .sceneStart id => [("scene_id", .text id), ("time", time), ("frame", frame)]
  | .sceneEnd id => [("scene_id", .text id), ("time", time), ("frame", frame)]
  | .cueStart id => [("cue_id", .text id), ("time", time), ("frame", frame)]
  | .cueEnd id => [("cue_id", .text id), ("time", time), ("frame", frame)]
  | .visibility scene component visible =>
    [("scene_id", .text scene), ("component_id", .text component), ("visible", .bool visible),
      ("time", time), ("frame", frame)]

/-- The details of what a handler is run for; nothing for a script. -/
def Invocation.toData (invocation : Invocation Float) : List Datum :=
  [.text invocation.eventName, .text invocation.scope.text, .text invocation.target,
    .text invocation.code,
    .map (match invocation.event with
      | some event => event.toFields
      | none => []),
    Report.text? invocation.timeline]

/-- What a callback is told. -/
def Notice.toData : Notice Float → List Datum
  | .frame t => [Report.time t]
  | .tick t => [Report.time t]
  | .event e => [.text e.kind.text, .map e.toFields]
  | .timeUpdate t d => [Report.time t, Report.time d]
  | .error message => [Report.text? message]
  | .handler invocation => invocation.toData
  | .mutation m => [.text m.kind.text, m.target.toDatum, Report.text? m.name]
  | .changed _ => []
  | .written text => [.text text]

def Timeline.toDatum {S : Type} (tl : Timeline Float S) : Datum :=
  .map [("id", .text tl.id), ("time", Report.time tl.time),
    ("frame", .number (.int tl.frame)), ("running", .bool tl.running), ("fps", .number tl.fps),
    ("mode", .text tl.mode.text), ("loop", .bool tl.loop),
    ("duration", Report.time? tl.duration),
    ("subscribers", .number (.int tl.subscribers.length))]

/-- Whether a component comes before another one in lists. -/
def ComponentKey.le (a b : ComponentKey) : Bool :=
  if a.1 == b.1 then
    if a.2.1 == b.2.1 then a.2.2 ≤ b.2.2 else a.2.1 < b.2.1
  else a.1 < b.1

/-- A player: what was active at its last tick, sorted. -/
def Player.toDatum {C : Type} (p : Player Float C) : Datum :=
  let visible := List.mergeSort p.visible fun a b => ComponentKey.le a.1 b.1
  .map [("group", .text p.group), ("mounted", .bool p.mounted),
    ("scene", Report.text? p.activeScene),
    ("cues", textData (p.activeCues.mergeSort fun a b => a ≤ b)),
    ("duration", Report.time? p.duration),
    ("visible", .list (visible.map fun (key, shown) =>
      .list [.text key.1, .number (.int key.2.1), .text key.2.2, .bool shown]))]

def Stage.clockFields {C W : Type} (s : Stage Float C W) : Fields :=
  [("timelines", .list (s.timelines.map Timeline.toDatum)),
    ("default", Report.text? s.defaultGroup)] ++
    match s.source.now? with
    | none => []
    | some now => [("now", Report.time now), ("pending", .number (.int s.source.pending))]

end Cuesheet
