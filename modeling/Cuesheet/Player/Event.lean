import Cuesheet.Number.Basic

/-!
# What a player tells

A player tells its listeners about every tick of its clock and about every scene, cue and
component that becomes active or ceases to be. Markup names the same events in handler attributes,
where a dash stands for the colon.
-/

namespace Cuesheet

inductive EventKind where
  | timelineTick
  | sceneStart
  | sceneEnd
  | cueStart
  | cueEnd
  | visibilityChange
  deriving DecidableEq, Repr, Inhabited

namespace EventKind

def text : EventKind → String
  | timelineTick => "timeline:tick"
  | sceneStart => "scene:start"
  | sceneEnd => "scene:end"
  | cueStart => "cue:start"
  | cueEnd => "cue:end"
  | visibilityChange => "visibility:change"

/-- All kinds, in the order in which they are listed. -/
def all : List EventKind :=
  [timelineTick, sceneStart, sceneEnd, cueStart, cueEnd, visibilityChange]

def ofString? (s : String) : Option EventKind := all.find? fun kind => kind.text == s

/-- The names of all kinds, in messages. -/
def choices : String :=
  "(" ++ String.intercalate ", " (all.map fun kind => "'" ++ kind.text ++ "'") ++ ")"

theorem mem_all (kind : EventKind) : kind ∈ all := by cases kind <;> simp [all]

end EventKind

/-- The name of an event written with a dash for its first colon. -/
def colonize : List Char → List Char
  | [] => []
  | c :: cs => if c == '-' then ':' :: cs else c :: colonize cs

/-- The event that a handler name stands for: the name itself, or the name with its first dash
read as a colon if that is an event. -/
def handlerEvent (name : String) : String :=
  if (EventKind.ofString? name).isSome then name
  else
    let candidate := String.ofList (colonize name.toList)
    if (EventKind.ofString? candidate).isSome then candidate else name

/-- What happened, without when. -/
inductive Occurrence where
  /-- The clock ticked, which shows so many frames per second. -/
  | tick (fps : Number)
  | sceneStart (scene : String)
  | sceneEnd (scene : String)
  | cueStart (cue : String)
  | cueEnd (cue : String)
  | visibility (scene component : String) (visible : Bool)
  deriving Repr

def Occurrence.kind : Occurrence → EventKind
  | tick _ => .timelineTick
  | sceneStart _ => .sceneStart
  | sceneEnd _ => .sceneEnd
  | cueStart _ => .cueStart
  | cueEnd _ => .cueEnd
  | visibility .. => .visibilityChange

/-- The element that an occurrence is about, as far as its handlers run. -/
inductive Scope where
  | composition
  | scene (id : String)
  | cue (id : String)
  deriving DecidableEq, Repr

/-- The element whose own handlers an occurrence runs, besides those of the composition. -/
def Occurrence.scope : Occurrence → Scope
  | sceneStart id => .scene id
  | sceneEnd id => .scene id
  | cueStart id => .cue id
  | cueEnd id => .cue id
  | tick _ => .composition
  | visibility .. => .composition

/-- What happened at a time and the frame shown then. -/
structure PlayerEvent (T : Type) where
  occurrence : Occurrence
  time : T
  frame : Int
  deriving Repr

def PlayerEvent.kind {T : Type} (event : PlayerEvent T) : EventKind := event.occurrence.kind

end Cuesheet
