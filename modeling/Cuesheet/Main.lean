import Cuesheet.Command.Run
import Cuesheet.Composition.Sampling
import Cuesheet.Files.Text

/-!
# The program

Runs a command line against real files and a real clock. Nothing is decided here: what is printed
and written comes from the commands.
-/

namespace Cuesheet.Program

/-- An error number, which may come with a minus sign. -/
def magnitude (code : UInt32) : Nat := min code.toNat (-code).toNat

def numberOf : IO.Error → Nat × String
  | .alreadyExists _ code words => (magnitude code, words)
  | .noFileOrDirectory _ code words => (magnitude code, words)
  | .inappropriateType _ code words => (magnitude code, words)
  | .permissionDenied _ code words => (magnitude code, words)
  | .invalidArgument _ code words => (magnitude code, words)
  | .resourceExhausted _ code words => (magnitude code, words)
  | .noSuchThing _ code words => (magnitude code, words)
  | .illegalOperation code words => (magnitude code, words)
  | .otherError code words => (magnitude code, words)
  | error => (5, toString error)

def onFile {α : Type} (name : String) (act : IO α) : IO (Except FileFault α) := do
  if name.toList.contains '\x00' then return .error .nullByte
  else
    try return .ok (← act)
    catch error =>
      let (number, words) := numberOf error
      return .error (.ofNumber number words name)

/-- Whether there is a directory with a name: only a directory can be opened by its dot. -/
def isDirectory (name : String) : IO Bool := do
  try
    let _ ← IO.FS.Handle.mk (name ++ "/.") IO.FS.Mode.read
    return true
  catch _ => return false

/-- Waits until a number of seconds after a moment. -/
def waitUntil (began : Nat) (seconds : Float) : IO Unit := do
  let due := began + (seconds * 1000.0).toUInt64.toNat
  IO.sleep (due - (← IO.monoMsNow)).toUInt32

/-- Real files, the real clock, and no network. -/
def system : IO (System IO) := do
  let began ← IO.monoMsNow
  let nonce ← IO.rand 0 0xFFFFFFFFFF
  let seed ← IO.rand 0 0x7FFFFFFFFFFFFFFF
  return {
    read := fun name => do return (← onFile name (IO.FS.readBinFile name)).bind decodeText
    write := fun name text => onFile name (IO.FS.writeFile name text)
    makeDirectory := fun name => onFile name (IO.FS.createDir name)
    isDirectory := fun name => onFile name (isDirectory name)
    print := fun text => do
      (← IO.getStdout).putStr text
    web := fun _ => return .failure "no network"
    waitUntil := waitUntil began
    draws := fun given => Draws.ofSeed (given.getD seed)
    nonce }

/-- Runs a command line: the exit code. -/
def run (args : List String) : IO UInt32 := do
  match ← (Command.run (← system) args).run with
  | .ok () => return 0
  | .error (.exit code) => return code.toUInt32
  | .error (.failed fault) =>
    (← IO.getStderr).putStrLn fault.message
    return 1

end Cuesheet.Program

def main (args : List String) : IO UInt32 := Cuesheet.Program.run args
