import Cuesheet.Xml.Node

/-!
# Trees whose nodes can be told apart

A live tree gives every node a key of its own; nodes that are inserted later get keys that were
never used before. Edits address nodes by key, and the walk from a node up to its root is found by
looking for the key from the top.
-/

namespace Cuesheet.Xml

namespace Node

mutual

/-- The nodes from the root down to the node with a key. -/
def pathTo? (key : Nat) : Node → Option (List Node)
  | ⟨k, name, attributes, text, children, tail⟩ =>
    if k = key then some [⟨k, name, attributes, text, children, tail⟩]
    else (pathToAny? key children).map (⟨k, name, attributes, text, children, tail⟩ :: ·)

/-- The nodes from one of several roots down to the node with a key. -/
def pathToAny? (key : Nat) : List Node → Option (List Node)
  | [] => none
  | node :: rest =>
    match node.pathTo? key with
    | some path => some path
    | none => pathToAny? key rest

end

mutual

def modify (key : Nat) (f : Node → Node) : Node → Node
  | ⟨k, name, attributes, text, children, tail⟩ =>
    if k = key then f ⟨k, name, attributes, text, children, tail⟩
    else ⟨k, name, attributes, text, modifyAll key f children, tail⟩

/-- Changes the node with a key among several trees. -/
def modifyAll (key : Nat) (f : Node → Node) : List Node → List Node
  | [] => []
  | node :: rest => node.modify key f :: modifyAll key f rest

end

mutual

/-- The node whose child has a key. -/
def parentOf? (key : Nat) : Node → Option Node
  | ⟨k, name, attributes, text, children, tail⟩ =>
    if children.any (·.key == key) then some ⟨k, name, attributes, text, children, tail⟩
    else parentAmong? key children

/-- The node in one of several trees whose child has a key. -/
def parentAmong? (key : Nat) : List Node → Option Node
  | [] => none
  | node :: rest =>
    match node.parentOf? key with
    | some parent => some parent
    | none => parentAmong? key rest

end

/-! ## Edits of one node -/

/-- Gives an attribute a value, or removes it. -/
def setAttribute (node : Node) (name : String) (value : Option String) : Node :=
  { node with
    attributes := match value with
      | some value => node.attributes.put name value
      | none => node.attributes.remove name }

/-- Replaces everything inside a node by text. -/
def setText (node : Node) (text : String) : Node :=
  { node with text := text.toList, children := [] }

/-- Inserts a child before the one at an index; at the end without an index or with one that is
too large, at the front with a negative one. -/
def insertChild (node child : Node) (index : Option Int) : Node :=
  let i : Nat := match index with
    | none => node.children.length
    | some index => index.toNat
  { node with children := node.children.take i ++ child :: node.children.drop i }

/-- Removes the child with a key, and with it the text that follows it. -/
def removeChild (node : Node) (key : Nat) : Node :=
  { node with children := node.children.filter fun child => child.key != key }

/-- Puts a node in the place of the child with a key. The text that follows the child stays. -/
def replaceChild (node : Node) (key : Nat) (replacement : Node) : Node :=
  { node with
    children := node.children.map fun child =>
      if child.key = key then { replacement with tail := child.tail } else child }

end Node

/-- A tree whose nodes have keys of their own, all below `nextKey`. -/
structure Tree where
  root : Node
  nextKey : Nat
  deriving Inhabited, Repr

namespace Tree

/-- Gives every node of a tree a key, in document order. -/
def ofNode (root : Node) : Tree :=
  let (root, nextKey) := root.number 0
  { root, nextKey }

/-- The first node in document order with an id. -/
def findId? (tree : Tree) (id : String) : Option Node :=
  tree.root.preorder.find? fun node => node.attribute? "id" == some id

def find? (tree : Tree) (key : Nat) : Option Node :=
  (tree.root.pathTo? key).bind List.getLast?

/-- The node with a key, its parent, and so on up to the root. -/
def ancestors (tree : Tree) (key : Nat) : List Node := ((tree.root.pathTo? key).getD []).reverse

def parentOf? (tree : Tree) (key : Nat) : Option Node := tree.root.parentOf? key

def modify (tree : Tree) (key : Nat) (f : Node → Node) : Tree :=
  { tree with root := tree.root.modify key f }

/-- Gives the nodes of a tree from elsewhere keys that are not used here. -/
def adopt (tree : Tree) (node : Node) : Node × Tree :=
  let (node, nextKey) := node.number tree.nextKey
  (node, { tree with nextKey })

/-- Inserts a node from elsewhere under the node with a key. -/
def insert (tree : Tree) (parent : Nat) (child : Node) (index : Option Int) : Tree :=
  let (child, tree) := tree.adopt child
  tree.modify parent fun node => node.insertChild child index

def remove (tree : Tree) (parent key : Nat) : Tree :=
  tree.modify parent fun node => node.removeChild key

/-- Puts a node from elsewhere in the place of the node with a key. -/
def replace (tree : Tree) (parent key : Nat) (replacement : Node) : Tree :=
  let (replacement, tree) := tree.adopt replacement
  tree.modify parent fun node => node.replaceChild key replacement

end Tree

end Cuesheet.Xml
