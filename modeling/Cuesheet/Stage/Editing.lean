import Cuesheet.Patch.Apply
import Cuesheet.Stage.Clocks

/-!
# Documents on the stage

Every edit of a document is told to its observers, one after the other in the order in which they
began. A reflector that observes a document notes what it has to do and requests a frame for it,
unless the edit lies in a subtree that is marked as ignored. Other observers are called, and may
edit in turn.

A batch of patches that is all or nothing works on a copy and puts it in the place of the tree in
one change; any other batch edits the tree patch by patch.
-/

namespace Cuesheet

/-- The attribute that marks a subtree as ignored by reflectors. -/
def ignoreMark : String := "data-videoml-ignore"

namespace Stage

variable {T C W : Type} [TimeScalar T]

/-! ## Documents as values -/

/-- The document under a key, as a value. -/
def document? (s : Stage T C W) (key : Nat) : Option Document :=
  match s.documents[key]? with
  | none => none
  | some d => (s.trees[d.tree]?).map fun live => { tree := live.tree, prefixes := d.prefixes }

/-- Adds a document with a tree of its own. -/
def appendDocument (s : Stage T C W) (doc : Document) : Stage T C W :=
  { s with
    trees := s.trees ++ [{ tree := doc.tree }]
    documents := s.documents ++ [{ tree := s.trees.length, prefixes := doc.prefixes }] }

/-- Whether an edit of a kind may take nodes out of a tree. -/
def mayRemove : MutationKind → Bool
  | .attributes => false
  | .childList => true
  | .characterData => true

def storeTree (s : Stage T C W) (key : Nat) (kind : MutationKind) (tree : Xml.Tree) :
    Stage T C W :=
  match s.documents[key]? with
  | none => s
  | some d =>
    { s with
      trees := s.trees.modify d.tree fun live =>
        { tree
          former := if mayRemove kind then live.tree.root :: live.former else live.former } }

def openDocument (text : String) : Action T C W Nat := do
  match Document.ofText text with
  | .error fault => throw (.markup fault)
  | .ok doc =>
    let key := (← get).documents.length
    modify fun s => s.appendDocument doc
    return key

/-- Copies a document, without its observers: the key of the copy. -/
def copyDocument (key : Nat) : Action T C W Nat := do
  let s ← get
  match s.document? key with
  | none => return s.documents.length
  | some doc =>
    modify fun s => s.appendDocument doc
    return s.documents.length

/-! ## Observers -/

/-- The node of a mutation as it is now. -/
def currentNode (s : Stage T C W) (tree : Nat) (node : Xml.Node) : Xml.Node :=
  ((s.trees[tree]?).bind fun live => live.find? node.key).getD node

/-- A node of a tree with its ancestors in the document under a key; the node alone if it is not
in the tree of the document. -/
def lineage (s : Stage T C W) (key tree : Nat) (node : Xml.Node) : List Xml.Node :=
  match s.documents[key]?, s.document? key with
  | some d, some doc =>
    if d.tree = tree then
      match doc.tree.ancestors node.key with
      | [] => [node]
      | nodes => nodes
    else [node]
  | _, _ => [node]

/-- Whether some of the nodes is marked as ignored. -/
def isIgnored (nodes : List Xml.Node) : Bool :=
  nodes.any fun node => node.attribute? ignoreMark == some "true"

/-- A reflector notes an edit and requests a frame for it. -/
def noteEdit (key tree : Nat) (node : Xml.Node) : Action T C W Unit := do
  let s ← get
  match s.reflectors[key]? with
  | none => pure ()
  | some r =>
    if isIgnored (s.lineage r.document tree node) then pure ()
    else
      modify fun s => s.modifyReflector key fun r =>
        { r with pendingRebind := true, pendingText := r.pendingText || r.onText.isSome }
      match r.handle with
      | some _ => pure ()
      | none =>
        let handle ← request (.flush key)
        modify fun s => s.modifyReflector key fun r => { r with handle := some handle }

/-- Tells an observer about an edit in a tree. -/
def notice (react : React T C W) (tree : Nat) (m : Mutation) (observer : Observer C) :
    Action T C W Unit := do
  let target := (← get).currentNode tree m.target
  match observer with
  | .reflector key => noteEdit key tree target
  | .call c => react c (.mutation { m with target })

/-- Tells observers about an edit in a tree, one after the other. -/
def noticeEach (react : React T C W) (tree : Nat) (m : Mutation) :
    List (Observer C) → Action T C W Unit
  | [] => pure ()
  | observer :: rest => do
    notice react tree m observer
    noticeEach react tree m rest

/-- Tells the observers of a document about an edit. -/
def announce (react : React T C W) (key : Nat) (m : Mutation) : Action T C W Unit := do
  match (← get).documents[key]? with
  | none => pure ()
  | some d => noticeEach react d.tree m d.observers

/-- Adds an observer to a document. -/
def observe (key : Nat) (observer : Observer C) : Action T C W Unit :=
  modify fun s => s.modifyDocument key fun d => { d with observers := d.observers ++ [observer] }

/-- Removes an observer from a document, once. -/
def disconnect [DecidableEq C] (key : Nat) (observer : Observer C) : Action T C W Unit :=
  modify fun s => s.modifyDocument key fun d =>
    { d with observers := d.observers.erase observer }

/-! ## Edits -/

/-- Stores an edited document and tells its observers. -/
def commitEdit (react : React T C W) (key : Nat) (edited : Document × Mutation) :
    Action T C W Unit := do
  modify fun s => s.storeTree key edited.2.kind edited.1.tree
  announce react key edited.2

/-- Does something with a document, if it is there. -/
def withDocument (key : Nat) (act : Document → Action T C W Unit) : Action T C W Unit := do
  match (← get).document? key with
  | none => pure ()
  | some doc => act doc

/-- Gives an attribute of a node a value, or removes it. -/
def setAttribute (react : React T C W) (key : Nat) (node : Xml.Node) (name : String)
    (value : Option String) : Action T C W Unit :=
  withDocument key fun doc => commitEdit react key (doc.setAttribute node name value)

/-- Replaces everything inside a node by text. -/
def setText (react : React T C W) (key : Nat) (node : Xml.Node) (text : String) :
    Action T C W Unit :=
  withDocument key fun doc => commitEdit react key (doc.setText node text)

/-- Reads the markup of a node with the prefixes of a document in scope. -/
def readFragment (doc : Document) (markup : String) : Action T C W Xml.Node :=
  match Document.fragment doc.prefixes markup with
  | .error fault => throw (.markup fault)
  | .ok node => pure node

def insert (react : React T C W) (key : Nat) (parent : Xml.Node) (markup : String)
    (index : Option Int) : Action T C W Unit :=
  withDocument key fun doc => do
    let node ← readFragment doc markup
    commitEdit react key (doc.insert parent node index)

def remove (react : React T C W) (key : Nat) (node : Xml.Node) : Action T C W Unit :=
  withDocument key fun doc =>
    match doc.remove node with
    | .error fault => throw (.root fault)
    | .ok edited => commitEdit react key edited

/-- Puts the node of some markup in the place of a node. -/
def replace (react : React T C W) (key : Nat) (node : Xml.Node) (markup : String) :
    Action T C W Unit :=
  withDocument key fun doc => do
    let replacement ← readFragment doc markup
    match doc.replace node replacement with
    | .error fault => throw (.root fault)
    | .ok edited => commitEdit react key edited

/-- A document takes over a tree and the prefixes that come with it, as one change of its root. -/
def takeOver (react : React T C W) (key tree : Nat) (prefixes : Entries String String) :
    Action T C W Unit := do
  modify fun s => s.modifyDocument key fun d =>
    { d with tree, prefixes := d.prefixes.putAll prefixes }
  withDocument key fun doc =>
    announce react key { kind := .childList, target := doc.tree.root }

/-- A document takes over the tree of another one, which both have from then on. -/
def commit (react : React T C W) (key other : Nat) : Action T C W Unit := do
  match (← get).documents[other]? with
  | none => pure ()
  | some d => takeOver react key d.tree d.prefixes

/-! ## Writing -/

/-- Writes a document with its prefixes registered. -/
def write (key : Nat) : Action T C W String := do
  let s ← get
  match s.document? key with
  | none => return ""
  | some doc =>
    let (registry, written) := doc.write s.registry
    set { s with registry }
    match written with
    | .error fault => throw (.write fault)
    | .ok text => return text

/-! ## Patches -/

/-- Applies patches to a document one after the other; those before one that fails stay. -/
def applyEach (react : React T C W) (enforce : Bool) (key : Nat) :
    List (Option Patch) → Action T C W Unit
  | [] => pure ()
  | patch :: rest => do
    withDocument key fun doc =>
      match Patch.applyEntry enforce doc patch with
      | .error fault => throw (.patch fault)
      | .ok edited => commitEdit react key edited
    applyEach react enforce key rest

/-- Applies patches to a copy of a document, which then takes the place of its tree. -/
def applyTogether (react : React T C W) (enforce : Bool) (key : Nat)
    (batch : List (Option Patch)) : Action T C W Unit :=
  withDocument key fun doc =>
    match Patch.applyAll enforce doc batch with
    | .error fault => throw (.patch fault)
    | .ok edited =>
      if batch.isEmpty then pure ()
      else do
        let tree := (← get).trees.length
        modify fun s => { s with trees := s.trees ++ [{ tree := edited.tree }] }
        takeOver react key tree edited.prefixes

/-- Applies a batch of patches to a document and writes it. -/
def patch (react : React T C W) (key : Nat) (entries : List Patch.Entry)
    (enforce atomic : Bool) : Action T C W String := do
  withDocument key fun doc =>
    if !rootTags.contains doc.rootTag then throw (.patch .wrongRoot)
    else
      match Patch.decodeAll entries with
      | .error fault => throw (.patch fault)
      | .ok batch =>
        if atomic then applyTogether react enforce key batch
        else applyEach react enforce key batch
  write key

end Stage

end Cuesheet
