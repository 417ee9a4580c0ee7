import Cuesheet.Data.Entries
import Cuesheet.Xml.Name

/-!
# Element trees

A node is an element with its attributes, the text before its first child, its children, and the
text that follows it inside its parent. Names and attribute names are expanded. The key of a node
tells it from the other nodes of its tree and stays with it through edits.
-/

namespace Cuesheet.Xml

/-- An element and the text that follows it. -/
structure Node where
  key : Nat := 0
  name : String
  attributes : Entries String String := []
  text : List Char := []
  children : List Node := []
  tail : List Char := []
  deriving Inhabited, Repr

namespace Node

def tag (node : Node) : String := localName node.name

def attribute? (node : Node) (name : String) : Option String := node.attributes.value? name

mutual

/-- The nodes of a tree in document order. -/
def preorder : Node → List Node
  | ⟨key, name, attributes, text, children, tail⟩ =>
    ⟨key, name, attributes, text, children, tail⟩ :: preorderAll children

/-- The nodes of several trees in document order. -/
def preorderAll : List Node → List Node
  | [] => []
  | node :: rest => node.preorder ++ preorderAll rest

end

mutual

/-- All text inside a node, without the text that follows it. -/
def innerText : Node → List Char
  | ⟨_, _, _, text, children, _⟩ => text ++ innerTextAll children

/-- The text inside and after several nodes. -/
def innerTextAll : List Node → List Char
  | [] => []
  | node :: rest => node.innerText ++ node.tail ++ innerTextAll rest

end

mutual

/-- The tree with keys counted up from `next` in document order, and the next key. -/
def number (next : Nat) : Node → Node × Nat
  | ⟨_, name, attributes, text, children, tail⟩ =>
    let (children, after) := numberAll (next + 1) children
    (⟨next, name, attributes, text, children, tail⟩, after)

/-- Several trees with keys counted up from `next`. -/
def numberAll (next : Nat) : List Node → List Node × Nat
  | [] => ([], next)
  | node :: rest =>
    let (node, next) := node.number next
    let (rest, next) := numberAll next rest
    (node :: rest, next)

end

end Node

end Cuesheet.Xml
