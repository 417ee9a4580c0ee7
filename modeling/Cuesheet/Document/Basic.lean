import Cuesheet.Document.Tree
import Cuesheet.Markup.Element
import Cuesheet.Xml.Writer

/-!
# Documents that can be edited

A document is a tree together with the prefixes that its source text declares. Every edit says
what it did to which node, as a mutation; those who observe the document are told.
-/

namespace Cuesheet

/-- A tree and the prefixes of the namespaces in it. -/
structure Document where
  tree : Xml.Tree
  prefixes : Entries String String := []
  deriving Inhabited, Repr

/-- What an edit changes about a node. -/
inductive MutationKind where
  | attributes
  | childList
  | characterData
  deriving DecidableEq, Repr

def MutationKind.text : MutationKind → String
  | attributes => "attributes"
  | childList => "childList"
  | characterData => "characterData"

/-- What an edit did: the node it happened on, as it is afterwards, and the attribute if there is
one. -/
structure Mutation where
  kind : MutationKind
  target : Xml.Node
  name : Option String := none
  deriving Repr

/-- An edit that the root of a document does not admit. -/
inductive RootFault where
  | remove
  | replace
  deriving DecidableEq, Repr

def RootFault.message : RootFault → String
  | .remove => "Cannot remove the document root."
  | .replace => "Cannot replace the document root."

namespace Document

def ofText (text : String) : Except MarkupFault Document :=
  (Xml.Source.ofMarkup text).map fun source =>
    { tree := .ofNode source.root, prefixes := source.prefixes }

def rootTag (doc : Document) : String := doc.tree.root.tag

def element (doc : Document) : Except Xml.NameFault Element :=
  Element.ofNode doc.prefixes doc.tree.root

/-! ## Writing -/

/-- Why a document cannot be written. -/
inductive WriteFault where
  | registry (fault : Xml.RegistryFault)
  | name (fault : Xml.NameFault)
  deriving DecidableEq, Repr

def WriteFault.message : WriteFault → String
  | .registry fault => fault.message
  | .name fault => fault.message

/-- Writes a document after registering its prefixes. The registrations stay, also those made
before a failure. -/
def write (registry : Xml.Registry) (doc : Document) :
    Xml.Registry × Except WriteFault String :=
  match registry.registerAll doc.prefixes with
  | (registry, some fault) => (registry, .error (.registry fault))
  | (registry, none) =>
    (registry, match Xml.render registry doc.tree.root with
      | .error fault => .error (.name fault)
      | .ok text => .ok text)

/-! ## Names -/

/-- A name with its prefix resolved, if it has one that the document declares. -/
def qualify (doc : Document) (name : String) : String :=
  match Xml.splitAtFirst ':' name.toList with
  | none => name
  | some (label, rest) =>
    match doc.prefixes.find? fun entry => entry.2 == String.ofList label with
    | some (uri, _) => Xml.expand uri (String.ofList rest)
    | none => name

/-! ## Edits -/

/-- A mutation of a node, which is looked up after the edit. -/
def mutation (doc : Document) (kind : MutationKind) (node : Xml.Node)
    (name : Option String := none) : Mutation :=
  { kind, target := (doc.tree.find? node.key).getD node, name }

/-- Gives an attribute a value, or removes it. -/
def setAttribute (doc : Document) (node : Xml.Node) (name : String) (value : Option String) :
    Document × Mutation :=
  let name := doc.qualify name
  let doc' := { doc with tree := doc.tree.modify node.key fun n => n.setAttribute name value }
  (doc', doc'.mutation .attributes node (some name))

/-- Replaces everything inside a node by text. -/
def setText (doc : Document) (node : Xml.Node) (text : String) : Document × Mutation :=
  let doc' := { doc with tree := doc.tree.modify node.key fun n => n.setText text }
  (doc', doc'.mutation .characterData node)

def insert (doc : Document) (parent child : Xml.Node) (index : Option Int) :
    Document × Mutation :=
  let doc' := { doc with tree := doc.tree.insert parent.key child index }
  (doc', doc'.mutation .childList parent)

def remove (doc : Document) (node : Xml.Node) : Except RootFault (Document × Mutation) :=
  match doc.tree.parentOf? node.key with
  | none => .error .remove
  | some parent =>
    let doc' := { doc with tree := doc.tree.remove parent.key node.key }
    .ok (doc', doc'.mutation .childList parent)

/-- Puts another node in the place of a node. -/
def replace (doc : Document) (node replacement : Xml.Node) :
    Except RootFault (Document × Mutation) :=
  match doc.tree.parentOf? node.key with
  | none => .error .replace
  | some parent =>
    let doc' := { doc with tree := doc.tree.replace parent.key node.key replacement }
    .ok (doc', doc'.mutation .childList parent)

/-! ## Fragments -/

/-- The markup of a node inside a root that declares prefixes. -/
def wrapFragment (prefixes : Entries String String) (markup : String) : String :=
  let declarations := List.map (fun (uri, label) => " xmlns:" ++ label ++ "=\"" ++ uri ++ "\"")
    prefixes
  "<root" ++ String.join declarations ++ ">" ++ markup ++ "</root>"

/-- Reads the first element of the markup of a node, the prefixes of a document being in scope. -/
def fragment (prefixes : Entries String String) (markup : String) :
    Except MarkupFault Xml.Node :=
  match Xml.Source.ofText (wrapFragment prefixes markup) with
  | .error fault => .error (.malformedNode fault)
  | .ok source =>
    match source.root.children with
    | [] => .error .noNode
    | node :: _ => .ok { node with tail := [] }

/-! ## Sealed scenes

A scene is sealed by `sealed="true"` or, if it has no `sealed` attribute, by
`data-sealed="true"`. What counts for a node is the scene nearest around it.
-/

def isScene (node : Xml.Node) : Bool := node.tag == "scene"

def isSealed (scene : Xml.Node) : Bool :=
  match scene.attribute? "sealed" with
  | some flag => flag == "true"
  | none => scene.attribute? "data-sealed" == some "true"

def sceneId (scene : Xml.Node) : String := (scene.attribute? "id").getD "unknown"

/-- The id of the sealed scene around a node, if the nearest scene is sealed. -/
def sealedSceneOf (doc : Document) (node : Xml.Node) : Option String :=
  match (doc.tree.ancestors node.key).find? isScene with
  | none => none
  | some scene => if isSealed scene then some (sceneId scene) else none

end Document

end Cuesheet
