import Cuesheet.Text.Blank
import Cuesheet.Xml.Reader

/-!
# Markup elements

Resolution works on elements that no longer change: a tag without its namespace, attributes in
order, the child elements, and all the text inside. An attribute in a namespace is named with the
prefix that the document declares for the namespace, or without one if there is none.
-/

namespace Cuesheet

structure Element where
  tag : String
  attributes : Entries String String := []
  children : List Element := []
  /-- All text inside, descendants included. -/
  text : String := ""
  deriving Inhabited, Repr

namespace Element

/-- The value of an attribute; an empty one counts as absent. -/
def get? (el : Element) (name : String) : Option String :=
  match el.attributes.value? name with
  | some value => if value.isEmpty then none else some value
  | none => none

/-- Whether an attribute is there and not empty. -/
def has (el : Element) (name : String) : Bool := (el.get? name).isSome

/-- The value of the first of several attributes that is there. -/
def getFirst? (el : Element) (names : List String) : Option String := names.findSome? el.get?

/-- The children with one of the tags, or all children if there are no tags. -/
def childElements (el : Element) (tags : List String) : List Element :=
  if tags.isEmpty then el.children else el.children.filter fun child => tags.contains child.tag

mutual

/-- The elements of a tree in document order. -/
def preorder : Element → List Element
  | ⟨tag, attributes, children, text⟩ =>
    ⟨tag, attributes, children, text⟩ :: preorderAll children

/-- The elements of several trees in document order. -/
def preorderAll : List Element → List Element
  | [] => []
  | el :: rest => el.preorder ++ preorderAll rest

end

/-! ## From trees -/

/-- The name of an attribute, with the declared prefix of its namespace. -/
def attributeName (prefixes : Entries String String) (name : String) :
    Except Xml.NameFault String :=
  match name.toList with
  | '\x7b' :: rest =>
    match Xml.splitAtFirst '\x7d' rest with
    | none => .error .unclosedBrace
    | some (uri, part) =>
      let part := String.ofList part
      .ok (match prefixes.value? (String.ofList uri) with
        | some label => if label.isEmpty then part else label ++ ":" ++ part
        | none => part)
  | _ => .ok name

/-- The attributes of a node under their prefixed names. Where two names become one the later
value counts. -/
def attributesOf (prefixes : Entries String String) (attributes : Entries String String) :
    Except Xml.NameFault (Entries String String) :=
  attributes.foldlM (fun done (name, value) =>
    (attributeName prefixes name).map fun name => done.put name value) []

mutual

def ofNode (prefixes : Entries String String) : Xml.Node → Except Xml.NameFault Element
  | ⟨key, name, attributes, text, children, tail⟩ =>
    match attributesOf prefixes attributes, ofNodes prefixes children with
    | .error fault, _ => .error fault
    | _, .error fault => .error fault
    | .ok attributes', .ok children' =>
      let inner := Xml.Node.innerText ⟨key, name, attributes, text, children, tail⟩
      .ok ⟨Xml.localName name, attributes', children', String.ofList inner⟩

def ofNodes (prefixes : Entries String String) :
    List Xml.Node → Except Xml.NameFault (List Element)
  | [] => .ok []
  | node :: rest =>
    match ofNode prefixes node, ofNodes prefixes rest with
    | .error fault, _ => .error fault
    | _, .error fault => .error fault
    | .ok el, .ok els => .ok (el :: els)

end

end Element

/-! ## From text -/

/-- Why a text is not markup. -/
inductive MarkupFault where
  /-- A document is not well-formed. -/
  | malformed (fault : Xml.Fault)
  /-- The markup of a single node is not well-formed. -/
  | malformedNode (fault : Xml.Fault)
  /-- The markup of a single node holds no element. -/
  | noNode
  deriving DecidableEq, Repr

def MarkupFault.message : MarkupFault → String
  | .malformed fault => "Malformed markup: " ++ fault.message
  | .malformedNode fault => "Malformed node markup: " ++ fault.message
  | .noNode => "nodeXml must contain a single root element."

/-- The tags that the root of a composition may have. -/
def rootTags : List String := ["vml", "videoml", "video-ml"]

/-- Reads the document in a text, blanks around it ignored. -/
def Xml.Source.ofMarkup (text : String) : Except MarkupFault Xml.Source :=
  match Xml.Source.ofText (Text.trim text) with
  | .error fault => .error (.malformed fault)
  | .ok source => .ok source

/-- The frozen root element of a document. -/
def Xml.Source.element (source : Xml.Source) : Except Xml.NameFault Element :=
  Element.ofNode source.prefixes source.root

end Cuesheet
