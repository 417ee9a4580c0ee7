import Cuesheet.Patch.Basic

/-!
# Patch manifests

A manifest holds a list of patches in their wire form and says whether seals are enforced and
whether the batch is applied all or nothing.
-/

namespace Cuesheet

/-- A batch of patches with its flags. -/
structure PatchManifest where
  enforceSealed : Bool
  atomic : Bool
  patches : List Patch
  deriving Repr

/-- Why data is not a patch manifest. -/
inductive PatchManifestFault where
  | notAMap
  | noPatches
  | patchesNotAList
  | badFlag (name : String) (value : Datum)
  | entryNotAMap (index : Nat) (entry : Datum)
  | entryWithoutOp (index : Nat)
  | badEntry (index : Nat) (fault : PatchFault)
  deriving Repr

namespace PatchManifestFault

/-- How a message about an entry begins. -/
def place (index : Nat) : String := "Patch " ++ Number.intText index ++ ": "

def message : PatchManifestFault → String
  | notAMap => "Patch manifest: expected a mapping at the top level"
  | noPatches => "Patch manifest: missing required 'patches' field"
  | patchesNotAList => "Patch manifest: 'patches' must be a list"
  | badFlag name value =>
    value.telling ("Patch manifest: '" ++ name ++ "' must be true or false, got " ++ value.shown)
  | entryNotAMap index entry =>
    entry.telling (place index ++ "expected a mapping, got " ++ entry.shown)
  | entryWithoutOp index => place index ++ "missing required field 'op'"
  | badEntry index fault =>
    if fault.isRefusal then place index ++ fault.message else fault.message

/-- Whether a fault says what is wrong with a manifest, and where if it is an entry. -/
def isRefusal : PatchManifestFault → Bool
  | entryNotAMap _ entry => entry.isWritable
  | badEntry _ fault => fault.isRefusal
  | _ => true

end PatchManifestFault

namespace PatchManifest

def flag (fields : Fields) (name : String) (default : Bool) : Except PatchManifestFault Bool :=
  match fields.value? name with
  | none => .ok default
  | some (.bool b) => .ok b
  | some d => .error (.badFlag name d)

/-- The patches of the entries, numbered from `index`. -/
def entries (index : Nat) : List Datum → Except PatchManifestFault (List Patch)
  | [] => .ok []
  | .map data :: rest =>
    if !Entries.hasKey data "op" then .error (.entryWithoutOp index)
    else
      match Patch.ofFields data with
      | .error fault => .error (.badEntry index fault)
      | .ok patch => (entries (index + 1) rest).map (patch :: ·)
  | d :: _ => .error (.entryNotAMap index d)

/-- Reads a manifest from data. -/
def ofDatum : Datum → Except PatchManifestFault PatchManifest
  | .map fields =>
    match Entries.value? fields "patches" with
    | none => .error .noPatches
    | some (.list ds) => do
      let enforceSealed ← flag fields "enforce_sealed" false
      let atomic ← flag fields "atomic" true
      let patches ← entries 0 ds
      return { enforceSealed, atomic, patches }
    | some _ => .error .patchesNotAList
  | _ => .error .notAMap

/-- The fields of a manifest, with every patch decoded. -/
def toFields (m : PatchManifest) : Fields :=
  [("enforce_sealed", .bool m.enforceSealed), ("atomic", .bool m.atomic),
    ("patches", .list (m.patches.map fun patch => .map patch.toFields))]

end PatchManifest

end Cuesheet
