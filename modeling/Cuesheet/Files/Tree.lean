import Cuesheet.Data.Entries
import Cuesheet.Files.Path
import Cuesheet.Files.Text

/-!
# A tree of files

A tree holds files and directories below a working directory. A name is walked component by
component; two dots lead to the parent, which for the working directory lies outside. Places
outside are directories of which nothing else is known.
-/

namespace Cuesheet

/-- Where a walk has come to: the names from the working directory on. Walks that lead outside
begin with two dots, or with a slash. -/
abbrev Place := List String

namespace Place

/-- Whether a place lies on the way out: it has no names of its own. -/
def isOutward (place : Place) : Bool := place == ["/"] || place.all (· == "..")

def up (place : Place) : Place :=
  if place == ["/"] then place else if isOutward place then place ++ [".."] else place.dropLast

end Place

inductive Stored where
  | file (bytes : ByteArray)
  | directory

/-- Files and directories by place. -/
abbrev FileTree := Entries Place Stored

namespace FileTree

def at? (tree : FileTree) (place : Place) : Option Stored :=
  if Place.isOutward place then some .directory else tree.value? place

/-- The longest name of a single file, in bytes. -/
def maxName : Nat := 255

/-- The longest name with all its directories, in bytes. -/
def maxPath : Nat := 4095

/-- Walks from a place along components. Every component but the last must lead to a directory;
what the last one leads to need not be there. -/
def walk (tree : FileTree) (name : String) : Place → List String → Except FileFault Place
  | place, [] => .ok place
  | place, component :: rest =>
    match tree.at? place with
    | none => .error (.missing name)
    | some (.file _) => .error (.notADirectory name)
    | some .directory =>
      if component == "" || component == "." then walk tree name place rest
      else if component == ".." then walk tree name (Place.up place) rest
      else if maxName < component.utf8ByteSize then .error (.nameTooLong name)
      else walk tree name (place ++ [component]) rest

def locate (tree : FileTree) (name : String) : Except FileFault Place :=
  let cs := name.toList
  if cs.contains '\x00' then .error .nullByte
  else if name.isEmpty then .error (.missing name)
  else if maxPath < name.utf8ByteSize then .error (.nameTooLong name)
  else
    let start : Place := if cs.head? == some '/' then ["/"] else []
    walk tree name start ((cs.splitOn '/').map String.ofList)

def read (tree : FileTree) (name : String) : Except FileFault String :=
  match tree.locate name with
  | .error fault => .error fault
  | .ok place =>
    match tree.at? place with
    | none => .error (.missing name)
    | some .directory => .error (.isADirectory name)
    | some (.file bytes) => decodeText bytes

def isDirectory (tree : FileTree) (name : String) : Except FileFault Bool :=
  match tree.locate name with
  | .ok place => .ok (match tree.at? place with
      | some .directory => true
      | _ => false)
  | .error (.nameTooLong name) => .error (.nameTooLong name)
  | .error _ => .ok false

/-- Writes a text into the file with a name, making the file if it is not there. -/
def write (tree : FileTree) (name text : String) : Except FileFault FileTree :=
  match tree.locate name with
  | .error fault => .error fault
  | .ok place =>
    match tree.at? place with
    | some .directory => .error (.isADirectory name)
    | _ => .ok (tree.put place (.file text.toUTF8))

def makeDirectory (tree : FileTree) (name : String) : Except FileFault FileTree :=
  match tree.locate name with
  | .error fault => .error fault
  | .ok place =>
    match tree.at? place with
    | some _ => .error (.occupied name)
    | none => .ok (tree.put place .directory)

/-! ## Building trees -/

/-- Adds the directories on the way to a place. -/
def addParents (tree : FileTree) (place : Place) : FileTree :=
  let above := ((List.range place.length).drop 1).map place.take
  above.foldl (fun tree dir => if tree.hasKey dir then tree else tree.put dir .directory) tree

/-- Stores something under a name, with the directories on the way. -/
def store (tree : FileTree) (path : Path) (stored : Stored) : FileTree :=
  (tree.addParents path.names).put path.names stored

end FileTree

end Cuesheet
