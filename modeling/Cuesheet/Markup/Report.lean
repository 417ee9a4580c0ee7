import Cuesheet.Data.Datum
import Cuesheet.Markup.Element

/-!
# Elements as data

Elements and nodes in the form in which reports show them.
-/

namespace Cuesheet

/-- Pairs of texts as a list of lists. -/
def pairData (entries : Entries String String) : Datum :=
  .list (List.map (fun (a, b) => .list [.text a, .text b]) entries)

def textData (texts : List String) : Datum := .list (texts.map .text)

mutual

/-- An element with everything inside. -/
def Element.toDatum : Element → Datum
  | ⟨tag, attributes, children, text⟩ =>
    .map [("tag", .text tag), ("attrs", pairData attributes), ("text", .text text),
      ("children", .list (Element.toData children))]

def Element.toData : List Element → List Datum
  | [] => []
  | el :: rest => el.toDatum :: Element.toData rest

end

/-- A node by its tag and its id. -/
def Xml.Node.toDatum (node : Xml.Node) : Datum :=
  .map [("tag", .text node.tag),
    ("id", match node.attribute? "id" with
      | some id => .text id
      | none => .null)]

/-- The prefixes of a document with their namespaces, in order. -/
def prefixData (prefixes : Entries String String) : Datum :=
  pairData (prefixes.map fun (uri, label) => (label, uri))

end Cuesheet
