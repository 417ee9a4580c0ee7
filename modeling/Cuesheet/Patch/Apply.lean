import Cuesheet.Document.Basic
import Cuesheet.Patch.Basic

/-!
# Applying patches

A patch finds its target by id, is refused inside a sealed scene if seals are enforced, and makes
exactly one edit. A batch is applied all or nothing, or up to the first patch that fails.
-/

namespace Cuesheet

namespace Patch

def target (doc : Document) (op role id : String) : Except PatchFault Xml.Node :=
  match doc.tree.findId? id with
  | some node => .ok node
  | none => .error (.notFound op role id)

/-- Refuses a target inside a sealed scene if seals are enforced. -/
def checkSeal (doc : Document) (enforce : Bool) (node : Xml.Node) : Except PatchFault Unit :=
  if enforce then
    match doc.sealedSceneOf node with
    | some id => .error (.sealedScene id)
    | none => .ok ()
  else .ok ()

/-- The target of an edit that the root does not admit. -/
def inner (doc : Document) (op id : String) : Except PatchFault Xml.Node :=
  match target doc op "node" id with
  | .error fault => .error fault
  | .ok node =>
    if node.key = doc.tree.root.key then .error (.notFound op "node" id) else .ok node

/-- Reads the markup of a node with the prefixes of a document in scope. -/
def nodeOf (doc : Document) (markup : String) : Except PatchFault Xml.Node :=
  match Document.fragment doc.prefixes markup with
  | .error fault => .error (.markup fault)
  | .ok node => .ok node

/-- Applies a patch: the edited document, and what the edit did. -/
def apply (enforce : Bool) (doc : Document) : Patch → Except PatchFault (Document × Mutation)
  | .appendNode parentId markup index => do
    let parent ← target doc "appendNode" "parent" parentId
    checkSeal doc enforce parent
    let node ← nodeOf doc markup
    return doc.insert parent node index
  | .removeNode id => do
    let node ← inner doc "removeNode" id
    checkSeal doc enforce node
    match doc.remove node with
    | .ok result => return result
    | .error _ => throw (.notFound "removeNode" "node" id)
  | .setAttr id name value => do
    let node ← target doc "setAttr" "node" id
    checkSeal doc enforce node
    return doc.setAttribute node name value
  | .setText id text => do
    let node ← target doc "setText" "node" id
    checkSeal doc enforce node
    return doc.setText node text
  | .replaceSubtree id markup => do
    let node ← inner doc "replaceSubtree" id
    checkSeal doc enforce node
    let replacement ← nodeOf doc markup
    match doc.replace node replacement with
    | .ok result => return result
    | .error _ => throw (.notFound "replaceSubtree" "node" id)
  | .sealScene id => do
    match doc.tree.findId? id with
    | none => throw (.notFound "sealScene" "scene" id)
    | some node =>
      if Document.isScene node then return doc.setAttribute node "sealed" (some "true")
      else throw (.notFound "sealScene" "scene" id)

/-- What stands in a batch: a patch, its wire form, or something that is neither. -/
inductive Entry where
  | patch (p : Patch)
  | wire (data : Fields)
  | other
  deriving Repr

/-- A decoded entry: a patch, or something that is none and fails when its turn comes. -/
def Entry.decode : Entry → Except PatchFault (Option Patch)
  | .patch p => .ok (some p)
  | .wire data => (ofFields data).map some
  | .other => .ok none

def decodeAll : List Entry → Except PatchFault (List (Option Patch))
  | [] => .ok []
  | entry :: rest =>
    match entry.decode with
    | .error fault => .error fault
    | .ok patch => (decodeAll rest).map (patch :: ·)

/-- The batch of some data: maps are patches in their wire form. -/
def Entry.ofDatum : Datum → Entry
  | .map data => .wire data
  | _ => .other

def applyEntry (enforce : Bool) (doc : Document) : Option Patch →
    Except PatchFault (Document × Mutation)
  | some patch => patch.apply enforce doc
  | none => .error .notAPatch

/-- Applies patches one after the other; nothing is kept if one fails. -/
def applyAll (enforce : Bool) : Document → List (Option Patch) → Except PatchFault Document
  | doc, [] => .ok doc
  | doc, entry :: rest =>
    match applyEntry enforce doc entry with
    | .error fault => .error fault
    | .ok (doc, _) => applyAll enforce doc rest

/-- Applies a batch to a document whose root is that of a composition. -/
def applyBatch (enforce : Bool) (doc : Document) (entries : List Entry) :
    Except PatchFault Document :=
  if !rootTags.contains doc.rootTag then .error .wrongRoot
  else
    match decodeAll entries with
    | .error fault => .error fault
    | .ok batch => applyAll enforce doc batch

/-- Applies a batch to the document in a text. -/
def applyText (enforce : Bool) (text : String) (entries : List Entry) :
    Except PatchFault Document :=
  match Document.ofText text with
  | .error fault => .error (.markup fault)
  | .ok doc => applyBatch enforce doc entries

end Patch

end Cuesheet
