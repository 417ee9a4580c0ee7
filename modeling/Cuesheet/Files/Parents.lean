import Cuesheet.Files.Fault
import Cuesheet.Files.Path

/-!
# Making directories

Before a file is written its directory is made, with those above it. A directory that is there
already is left alone.
-/

namespace Cuesheet

/-- What can be done with files, in some monad. -/
structure FileSystem (m : Type → Type) where
  /-- The text of a file. -/
  read : String → m (Except FileFault String)
  /-- Writes a text into a file. -/
  write : String → String → m (Except FileFault Unit)
  /-- Makes a directory in one that is there. -/
  makeDirectory : String → m (Except FileFault Unit)
  isDirectory : String → m (Except FileFault Bool)

namespace FileSystem

variable {m : Type → Type} [Monad m]

/-- A fault is none if the directory to be made is there. -/
def unlessThere (fs : FileSystem m) (name : String) (fault : FileFault) :
    m (Except FileFault Unit) := do
  match ← fs.isDirectory name with
  | .ok true => return .ok ()
  | .ok false => return .error fault
  | .error other => return .error other

/-- Makes a directory, unless it is there. -/
def ensure (fs : FileSystem m) (name : String) : m (Except FileFault Unit) := do
  match ← fs.makeDirectory name with
  | .ok () => return .ok ()
  | .error .nullByte => return .error .nullByte
  | .error (.missing name) => return .error (.missing name)
  | .error fault => fs.unlessThere name fault

/-- Makes a directory and those above it; the names of the path are given backwards. -/
def ensureAll (fs : FileSystem m) (root : String) : List String → m (Except FileFault Unit)
  | [] => fs.ensure (Path.text { root, names := [] })
  | last :: above => do
    let name := Path.text { root, names := (last :: above).reverse }
    match ← fs.makeDirectory name with
    | .ok () => return .ok ()
    | .error .nullByte => return .error .nullByte
    | .error (.missing _) =>
      match ← fs.ensureAll root above with
      | .error fault => return .error fault
      | .ok () => fs.ensure name
    | .error fault => fs.unlessThere name fault

/-- Makes the directory of a path and those above it. -/
def ensurePath (fs : FileSystem m) (path : Path) : m (Except FileFault Unit) :=
  fs.ensureAll path.root path.names.reverse

end FileSystem

end Cuesheet
