import Cuesheet.Composition.Basic
import Cuesheet.Number.Notation

/-!
# Sampled pauses

A gaussian pause has no fixed length: each playing draws one, from a stream of standard normal
draws, and clips it. A pause without deviation takes no draw. Sampling goes through a composition
in document order and takes one draw for every pause that needs one.
-/

namespace Cuesheet

/-- The draws taken so far: mean and deviation of each, in order. -/
abbrev Drawn (T : Type) := List (T × T)

/-- A stream of standard normal draws. -/
abbrev Draws (T : Type) := Nat → T

namespace Pause

variable {T : Type} [TimeScalar T]

/-- A length clipped to the bounds that are given, the upper one last, and to zero. -/
def clip (min max : Option T) (value : T) : T :=
  let value := match min with
    | some lo => TimeScalar.later value lo
    | none => value
  let value := match max with
    | some hi => TimeScalar.earlier value hi
    | none => value
  TimeScalar.later value TimeScalar.zero

/-- The length of a pause, and the draws taken afterwards. -/
def sample (draws : Draws T) (drawn : Drawn T) : Pause T → T × Drawn T
  | .fixed seconds => (seconds, drawn)
  | .gaussian mean std min max =>
    if TimeScalar.lt TimeScalar.zero std then
      let value := TimeScalar.add mean (TimeScalar.mul std (draws drawn.length))
      (clip min max value, drawn ++ [(mean, std)])
    else (clip min max mean, drawn)

end Pause

namespace Sampling

variable {T : Type} [TimeScalar T]

/-- The pauses among the segments of a cue. -/
def segmentPauses (segments : List (Segment T)) : List (Pause T) :=
  segments.filterMap fun
    | .pause p => some p
    | .text _ _ => none

/-- The sum of the lengths of pauses, added to a sum so far. -/
def sum (draws : Draws T) : T → Drawn T → List (Pause T) → T × Drawn T
  | total, drawn, [] => (total, drawn)
  | total, drawn, p :: rest =>
    let (seconds, drawn) := p.sample draws drawn
    sum draws (TimeScalar.add total seconds) drawn rest

/-- The length of all pauses of a cue; none for a cue without pauses. -/
def cueSeconds (draws : Draws T) (drawn : Drawn T) (cue : Cue T) : Option T × Drawn T :=
  match segmentPauses cue.segments with
  | [] => (none, drawn)
  | pauses =>
    let (total, drawn) := sum draws TimeScalar.zero drawn pauses
    (some total, drawn)

/-- What is sampled: a length for every cue, none if it has no pauses, and for every pause between
cues. -/
abbrev Sampled (T : Type) := Entries String (Option T)

/-- The key of a pause between cues: the scene and the number of the pause in it. -/
def pauseKey (scene : String) (index : Nat) : String :=
  scene ++ "/pause-" ++ Number.intText index

/-- Samples the items of a scene; `index` counts the pauses between cues. -/
def items (draws : Draws T) (scene : String) :
    Nat → Sampled T × Drawn T → List (SceneItem T) → Sampled T × Drawn T
  | _, state, [] => state
  | index, (sampled, drawn), .cue cue :: rest =>
    let (seconds, drawn) := cueSeconds draws drawn cue
    items draws scene index (sampled.put cue.id seconds, drawn) rest
  | index, (sampled, drawn), .pause p :: rest =>
    let (seconds, drawn) := p.sample draws drawn
    items draws scene (index + 1) (sampled.put (pauseKey scene index) (some seconds), drawn) rest

def scenes (draws : Draws T) : Sampled T × Drawn T → List (Scene T) → Sampled T × Drawn T
  | state, [] => state
  | state, scene :: rest => scenes draws (items draws scene.id 0 state scene.items) rest

end Sampling

namespace Composition

variable {T : Type} [TimeScalar T]

/-- Samples every pause of a composition: the lengths, and the draws that were taken. -/
def samplePauses (c : Composition T) (draws : Draws T) : Sampling.Sampled T × Drawn T :=
  Sampling.scenes draws ([], []) c.scenes

/-- The seed for sampling: the one asked for, else that of the voiceover, its fraction cut off. -/
def samplingSeed (c : Composition T) (asked : Option Number) :
    Except ArithFault (Option Int) :=
  match asked.or (c.voiceover.bind Voiceover.seed) with
  | none => .ok none
  | some (.int n) => .ok (some n)
  | some (.real x) => (Number.truncateFloat x).map some

end Composition

/-! ## Draws from a seed

Numbers that look random come from a counter whose words are mixed: the `k`-th one is a function of
the seed and of `k` alone, so that a seed gives the same draws whenever it is used. Two of them make
a normal draw.
-/

namespace Draws

/-- How far the counter goes in a step: an odd number, so that all words are met. -/
def stride : UInt64 := 0x9E3779B97F4A7C15

/-- Mixes the bits of a word. Shifting, adding and multiplying by an odd number can all be undone,
so no two words are mixed into one. -/
def mix (x : UInt64) : UInt64 :=
  let x := (x ^^^ (x >>> 30)) * 0xBF58476D1CE4E5B9
  let x := (x ^^^ (x >>> 27)) * 0x94D049BB133111EB
  x ^^^ (x >>> 31)

/-- The `k`-th word of a seed. -/
def word (seed k : Nat) : UInt64 := mix (UInt64.ofNat seed + stride * UInt64.ofNat (k + 1))

/-- The `k`-th fraction of a seed: above zero, and at most one. -/
def fraction (seed k : Nat) : Float :=
  ((word seed k >>> 11).toNat + 1).toFloat / 9007199254740992.0

def turn : Float := 2.0 * Float.acos (-1.0)

/-- The normal draws of a seed: each is one coordinate of a point whose direction is uniform and
whose squared distance falls off exponentially. -/
def ofSeed (seed : Nat) : Draws Float := fun k =>
  Float.sqrt (-2.0 * Float.log (fraction seed (2 * k))) *
    Float.cos (turn * fraction seed (2 * k + 1))

end Draws

end Cuesheet
