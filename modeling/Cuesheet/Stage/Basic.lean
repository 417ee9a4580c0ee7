import Cuesheet.Clock.Timeline
import Cuesheet.Document.Basic
import Cuesheet.Host.Load
import Cuesheet.Patch.Basic
import Cuesheet.Resolution.Composition

/-!
# The stage

Everything that is live stands on one stage: the frame source, the timelines of the
synchronization groups, players, documents with their observers, reflectors and hosts. What one of
them does may call others, so calls are kept as data: a frame request says which timeline is to
tick or which reflector is to flush, a subscription says which player listens. Callbacks from
outside are names of a type `C`, and whatever they keep for themselves is of a type `W`.

An action changes the stage and may fail; what it did before it failed stays done.
-/

namespace Cuesheet

/-! ## Who is called -/

inductive FrameTask (C : Type) where
  | tick (group : String)
  | flush (reflector : Nat)
  | call (c : C)
  deriving DecidableEq, Repr

/-- Who is told the time of a timeline. -/
inductive Subscriber (C : Type) where
  | player (key : Nat)
  | call (c : C)
  deriving DecidableEq, Repr

/-- Who is told about the edits of a document. -/
inductive Observer (C : Type) where
  | reflector (key : Nat)
  | call (c : C)
  deriving DecidableEq, Repr

/-- What a callback is told. -/
inductive Notice (T : Type) where
  | frame (time : T)
  | tick (time : T)
  | event (event : PlayerEvent T)
  | timeUpdate (time duration : T)
  /-- What went wrong, or nothing once all is well. -/
  | error (message : Option String)
  | handler (invocation : Invocation T)
  | mutation (m : Mutation)
  /-- The document with a key changed. -/
  | changed (document : Nat)
  | written (text : String)
  deriving Repr

/-! ## What is live -/

/-- A tree in use, with its roots from before the edits that took nodes out of it, the latest
first. A node that left the tree stays as it last was in it. -/
structure LiveTree where
  tree : Xml.Tree
  former : List Xml.Node := []
  deriving Repr

/-- The node with a key, in the tree or as it left the tree. -/
def LiveTree.find? (live : LiveTree) (key : Nat) : Option Xml.Node :=
  (live.tree.root :: live.former).findSome? fun root =>
    (root.pathTo? key).bind List.getLast?

/-- A document that is observed. Documents may share a tree. -/
structure LiveDocument (C : Type) where
  /-- The number of the tree. -/
  tree : Nat
  prefixes : Entries String String
  observers : List (Observer C) := []
  deriving Repr

/-- Who takes a changed document over. -/
inductive Rebinding (C : Type) where
  | player (key : Nat)
  | call (c : C)
  deriving DecidableEq, Repr

/-- What carries the edits of a document over, once a frame. -/
structure Reflector (C : Type) where
  document : Nat
  rebinding : Rebinding C
  /-- Told the text of the document. -/
  onText : Option C
  flushCount : Nat := 0
  pendingRebind : Bool := false
  pendingText : Bool := false
  handle : Option Nat := none
  deriving Repr

/-! ## Faults -/

/-- Why an action fails. -/
inductive StageFault (T : Type) where
  | clock (fault : ClockFault T)
  /-- A scene or a cue that is not there. -/
  | missing (id : String)
  | markup (fault : MarkupFault)
  | name (fault : Xml.NameFault)
  | composition (fault : CompositionFault)
  | root (fault : RootFault)
  | patch (fault : PatchFault)
  | write (fault : Document.WriteFault)
  | file (fault : FileFault)
  /-- The frame source cannot be driven this way. -/
  | unsuitableSource
  /-- A callback failed. -/
  | callback (message : String)
  deriving Repr

def StageFault.message {T : Type} [TimeScalar T] : StageFault T → String
  | clock fault => fault.message
  | missing id => id
  | markup fault => fault.message
  | name fault => fault.message
  | composition fault => fault.message
  | root fault => fault.message
  | patch fault => fault.message
  | write fault => fault.message
  | file fault => fault.message
  | unsuitableSource => "the frame source cannot be driven this way"
  | callback message => message

/-! ## The stage -/

/-- Everything that is live. Players, trees, documents, reflectors and hosts are known by their
places in the lists; none is ever removed. -/
structure Stage (T C W : Type) where
  source : FrameSource T (FrameTask C)
  /-- The timelines by group, in the order in which they were made. -/
  timelines : List (Timeline T (Subscriber C)) := []
  players : List (Player T C) := []
  trees : List LiveTree := []
  documents : List (LiveDocument C) := []
  reflectors : List (Reflector C) := []
  hosts : List (Host C) := []
  /-- The prefixes registered for writing. -/
  registry : Xml.Registry := Xml.Registry.wellKnown
  /-- The number that names the next private group. -/
  nonce : Nat := 0
  outside : W

/-- What changes the stage and may fail. -/
abbrev Action (T C W : Type) := EStateM (StageFault T) (Stage T C W)

/-- What a callback does with what it is told. -/
abbrev React (T C W : Type) := C → Notice T → Action T C W Unit

namespace Stage

variable {T C W : Type}

def timeline? (s : Stage T C W) (group : String) : Option (Timeline T (Subscriber C)) :=
  s.timelines.find? fun tl => tl.id == group

/-- The timeline that was made first. -/
def defaultGroup (s : Stage T C W) : Option String := s.timelines.head?.map Timeline.id

def modifyTimeline (s : Stage T C W) (group : String)
    (f : Timeline T (Subscriber C) → Timeline T (Subscriber C)) : Stage T C W :=
  { s with timelines := s.timelines.map fun tl => if tl.id == group then f tl else tl }

def modifyPlayer (s : Stage T C W) (key : Nat) (f : Player T C → Player T C) : Stage T C W :=
  { s with players := s.players.modify key f }

def appendPlayer (s : Stage T C W) (p : Player T C) : Stage T C W :=
  { s with players := s.players ++ [p] }

def modifyDocument (s : Stage T C W) (key : Nat) (f : LiveDocument C → LiveDocument C) :
    Stage T C W :=
  { s with documents := s.documents.modify key f }

def modifyReflector (s : Stage T C W) (key : Nat) (f : Reflector C → Reflector C) :
    Stage T C W :=
  { s with reflectors := s.reflectors.modify key f }

def modifyHost (s : Stage T C W) (key : Nat) (f : Host C → Host C) : Stage T C W :=
  { s with hosts := s.hosts.modify key f }

/-! ## Actions -/

/-- Runs `after` whether or not `act` fails. A fault of `after` counts before one of `act`. -/
def ensuring (act after : Action T C W Unit) : Action T C W Unit := fun s =>
  match act s with
  | .ok () s => after s
  | .error fault s =>
    match after s with
    | .ok () s => .error fault s
    | .error fault s => .error fault s

/-- Runs an action and forgets its failure, but not what it did. -/
def attempt (act : Action T C W Unit) : Action T C W Unit := fun s =>
  match act s with
  | .ok () s => .ok () s
  | .error _ s => .ok () s

/-- The value of a computation that may break down. -/
def ofArith {α : Type} : Except ArithFault α → Action T C W α
  | .ok a => pure a
  | .error fault => throw (.clock (.arith fault))

/-- Tells a callback, if there is one. -/
def tell (react : React T C W) (c : Option C) (notice : Notice T) : Action T C W Unit :=
  match c with
  | none => pure ()
  | some c => react c notice

/-- Tells callbacks one after the other. -/
def tellAll (react : React T C W) (notice : Notice T) : List C → Action T C W Unit
  | [] => pure ()
  | c :: rest => do
    react c notice
    tellAll react notice rest

end Stage

end Cuesheet
