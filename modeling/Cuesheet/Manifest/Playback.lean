import Cuesheet.Clock.Mode
import Cuesheet.Data.PathVars
import Cuesheet.Files.Path
import Cuesheet.Host.Source
import Cuesheet.Number.Literal

/-!
# Playback manifests

A manifest lists the players of a playback with their sources and options, and says how fast and
how long to play. Paths may hold variables that the manifest defines, and relative paths start at
the directory of the manifest.
-/

namespace Cuesheet

structure PlayerEntry where
  source : String
  syncGroup : Option String
  clockMode : ClockMode
  loop : Bool
  autoPlay : Bool
  deriving DecidableEq, Repr

structure PlaybackManifest where
  refreshHz : Float
  seconds : Float
  players : List PlayerEntry
  deriving Repr

/-- Why data is not a playback manifest. -/
inductive PlaybackFault where
  | notAMap
  | noPlayers
  | playersEmpty
  /-- The playback section is neither a map nor empty. -/
  | sectionNotAMap
  | notANumber (label : String) (value : Datum)
  | notPositive (label : String) (value : Float)
  | entryNotAMap (index : Nat) (entry : Datum)
  | entryWithoutSource (index : Nat)
  | path (fault : PathFault)
  | badClockMode (index : Nat) (value : Datum)
  | notABool (label : String) (value : Datum)
  | arith (fault : ArithFault)
  deriving Repr

namespace PlaybackFault

def player (index : Nat) : String := "Player " ++ Number.intText index

def message : PlaybackFault → String
  | notAMap => "Playback manifest: expected a mapping at the top level"
  | noPlayers => "Playback manifest: missing required 'players' field"
  | playersEmpty => "Playback manifest: 'players' must be a non-empty list"
  | sectionNotAMap => "Playback manifest: 'playback' must be a mapping"
  | notANumber label value => label ++ " must be a number, got " ++ value.shown
  | notPositive label value => label ++ " must be > 0, got " ++ Number.floatText value
  | entryNotAMap index entry => player index ++ ": expected a mapping, got " ++ entry.shown
  | entryWithoutSource index => player index ++ ": missing required field 'source'"
  | path fault => fault.message
  | badClockMode index value =>
    player index ++ ": clock_mode must be one of " ++ ClockMode.choices ++ ", got '"
      ++ value.asText ++ "'"
  | notABool label value => label ++ " must be true or false, got " ++ value.shown
  | arith fault => fault.message

end PlaybackFault

namespace PlaybackManifest

/-- The frames per second of a manifest that does not say. -/
def defaultRefreshHz : Number := .int 60

/-- The seconds of a manifest that does not say. -/
def defaultSeconds : Number := .real 10.0

/-- A value as a double. Texts are read, and booleans count as one and zero. -/
def toFloat (label : String) (value : Datum) : Except PlaybackFault Float :=
  match value with
  | .number n =>
    match n.toFloat? with
    | .ok x => .ok x
    | .error fault => .error (.arith fault)
  | .bool b => .ok (if b then 1.0 else 0.0)
  | .text s =>
    match RealLiteral.ofText? s with
    | some literal => .ok literal.toFloat
    | none => .error (.notANumber label value)
  | _ => .error (.notANumber label value)

/-- A double that is not zero or below. -/
def positive (label : String) (value : Datum) : Except PlaybackFault Float :=
  match toFloat label value with
  | .error fault => .error fault
  | .ok x => if x ≤ 0 then .error (.notPositive label x) else .ok x

def bool (fields : Fields) (name : String) (default : Bool) (label : String) :
    Except PlaybackFault Bool :=
  match fields.value? name with
  | none => .ok default
  | some (.bool b) => .ok b
  | some d => .error (.notABool label d)

/-- The part of a manifest under a key; an empty value is an empty map. -/
def part (fields : Fields) (name : String) : Datum :=
  let d := (fields.value? name).getD (.map [])
  if d.isEmpty then .map [] else d

/-- The source of a player: its variables replaced, and seen from the directory of the manifest
unless it is a URL or begins at the root. -/
def source (directory : Path) (paths value : Datum) : Except PlaybackFault String :=
  match PathVars.resolve paths value.asText with
  | .error fault => .error (.path fault)
  | .ok s =>
    if Source.isUrl s || (Path.ofString s).isAbsolute then .ok s
    else .ok (directory.join (.ofString s)).text

def clockMode (index : Nat) (fields : Fields) : Except PlaybackFault ClockMode :=
  let value := (fields.value? "clock_mode").getD (.text ClockMode.live.text)
  match value with
  | .text s =>
    match ClockMode.ofString? s with
    | some mode => .ok mode
    | none => .error (.badClockMode index value)
  | _ => .error (.badClockMode index value)

def syncGroup (fields : Fields) : Option String :=
  match fields.value? "sync_group" with
  | none => none
  | some .null => none
  | some d => some d.asText

def player (directory : Path) (paths : Datum) (index : Nat) (fields : Fields) :
    Except PlaybackFault PlayerEntry := do
  match fields.value? "source" with
  | none => throw (.entryWithoutSource index)
  | some value =>
    let source ← source directory paths value
    let clockMode ← clockMode index fields
    let loop ← bool fields "loop" false (PlaybackFault.player index ++ ": loop")
    let autoPlay ← bool fields "auto_play" true (PlaybackFault.player index ++ ": auto_play")
    return { source, syncGroup := syncGroup fields, clockMode, loop, autoPlay }

/-- The players of the entries, numbered from `index`. -/
def playersOf (directory : Path) (paths : Datum) (index : Nat) :
    List Datum → Except PlaybackFault (List PlayerEntry)
  | [] => .ok []
  | .map fields :: rest =>
    match player directory paths index fields with
    | .error fault => .error fault
    | .ok entry => (playersOf directory paths (index + 1) rest).map (entry :: ·)
  | d :: _ => .error (.entryNotAMap index d)

/-- Reads a manifest from data; relative sources start at `directory`. -/
def ofDatum (directory : Path) : Datum → Except PlaybackFault PlaybackManifest
  | .map fields => do
    match Entries.value? fields "players" with
    | none => throw .noPlayers
    | some (.list (d :: ds)) =>
      let paths := part fields "paths"
      match part fields "playback" with
      | .map settings =>
        let setting (name : String) (default : Number) : Datum :=
          (Entries.value? settings name).getD (.number default)
        let refreshHz ← positive "playback.refresh_hz" (setting "refresh_hz" defaultRefreshHz)
        let seconds ← positive "playback.seconds" (setting "seconds" defaultSeconds)
        let players ← playersOf directory paths 0 (d :: ds)
        return { refreshHz, seconds, players }
      | _ => throw .sectionNotAMap
    | some _ => throw .playersEmpty
  | _ => .error .notAMap

/-! ## As data -/

def entryDatum (p : PlayerEntry) : Datum :=
  .map [("source", .text p.source),
    ("sync_group", match p.syncGroup with
      | some group => .text group
      | none => .null),
    ("clock_mode", .text p.clockMode.text), ("loop", .bool p.loop),
    ("auto_play", .bool p.autoPlay)]

/-- The fields of a manifest, defaults filled in. -/
def toFields (m : PlaybackManifest) : Fields :=
  [("playback", .map [("refresh_hz", .number (.real m.refreshHz)),
      ("seconds", .number (.real m.seconds))]),
    ("players", .list (m.players.map entryDatum))]

end PlaybackManifest

end Cuesheet
