import Cuesheet.Command.Arguments
import Cuesheet.Composition.Sampling
import Cuesheet.Data.Reader
import Cuesheet.Host.Fetch
import Cuesheet.Manifest.Patch
import Cuesheet.Manifest.Playback
import Cuesheet.Stage.Basic

/-!
# What commands work with

A command reads and writes files, asks URLs, prints, waits and draws, all through a system, so
that it can run against real files and a real clock or against values. It ends well, ends early
with an exit code, or fails.
-/

namespace Cuesheet

/-- What a command can do outside itself, in some monad. -/
structure System (m : Type → Type) extends FileSystem m where
  /-- Prints a text, which ends with its line ends. -/
  print : String → m Unit
  /-- Asks a URL. -/
  web : String → m Reply
  /-- Waits until so many seconds after the command began to wait. -/
  waitUntil : Float → m Unit
  /-- The normal draws that a seed gives, or those of no seed in particular. -/
  draws : Option Nat → Draws Float
  /-- Where the names of private groups begin. -/
  nonce : Nat

/-- Why a command fails. -/
inductive CommandFault where
  | file (fault : FileFault)
  /-- A manifest cannot be read as data. -/
  | data (fault : DataFault)
  | playback (fault : PlaybackFault)
  | patchManifest (fault : PatchManifestFault)
  | markup (fault : MarkupFault)
  | composition (fault : CompositionFault)
  | patch (fault : PatchFault)
  | write (fault : Document.WriteFault)
  | arith (fault : ArithFault)
  | negativeSeed
  | stage (fault : StageFault Float)

def CommandFault.message : CommandFault → String
  | file fault => fault.message
  | data fault => fault.message
  | playback fault => fault.message
  | patchManifest fault => fault.message
  | markup fault => fault.message
  | composition fault => fault.message
  | patch fault => fault.message
  | write fault => fault.message
  | arith fault => fault.message
  | negativeSeed => "expected non-negative integer"
  | stage fault => fault.message

/-- How a command ends before its time. -/
inductive Ending where
  | exit (code : Nat)
  | failed (fault : CommandFault)

/-- The exit codes of a command line that is not run. -/
def Ending.ofHalt : Halt → Ending
  | .help => .exit 0
  | .usage => .exit 2

abbrev CommandM (m : Type → Type) := ExceptT Ending m

namespace System

variable {m : Type → Type} [Monad m]

/-- The value of a computation that may fail. -/
def check {α ε : Type} (wrap : ε → CommandFault) : Except ε α → CommandM m α
  | .ok a => pure a
  | .error fault => throw (.failed (wrap fault))

def printLine (sys : System m) (line : String) : CommandM m Unit := sys.print (line ++ "\n")

def readFile (sys : System m) (name : String) : CommandM m String := do
  check .file (← sys.read name)

/-- Asks for what a source holds, following where web servers send one. -/
def fetch (sys : System m) (source : Source) : CommandM m Fetched :=
  ExceptT.lift (source.fetch sys.read sys.web true)

/-- The data in a manifest. A manifest without anything in it is null. -/
def readManifest (sys : System m) (name : String) : CommandM m Datum := do
  let text ← sys.readFile name
  if text.toList.all Text.isBlank then return .null else check .data (Datum.ofText text)

end System

end Cuesheet
