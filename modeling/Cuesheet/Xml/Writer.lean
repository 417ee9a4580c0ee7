import Cuesheet.Number.Notation
import Cuesheet.Text.Digit
import Cuesheet.Xml.Node

/-!
# Writing documents

A tree is written with every namespace that it uses declared on its root, sorted by prefix. The
prefix of a namespace is the one registered for it; a namespace without one is numbered by how
many namespaces were met before it. The prefixes `ns0`, `ns1`, … are kept for that and cannot be
registered.
-/

namespace Cuesheet.Xml

/-! ## Registered prefixes -/

/-- A prefix that is kept for numbered namespaces. -/
inductive RegistryFault where
  | reserved
  deriving DecidableEq, Repr

def RegistryFault.message : RegistryFault → String
  | .reserved => "Prefix format reserved for internal use"

/-- Registered prefixes by namespace. -/
abbrev Registry := Entries String String

namespace Registry

/-- The prefixes that are registered from the start. -/
def wellKnown : Registry :=
  [(xmlUri, "xml"),
    ("http://www.w3.org/1999/xhtml", "html"),
    ("http://www.w3.org/1999/02/22-rdf-syntax-ns#", "rdf"),
    ("http://schemas.xmlsoap.org/wsdl/", "wsdl"),
    ("http://www.w3.org/2001/XMLSchema", "xs"),
    ("http://www.w3.org/2001/XMLSchema-instance", "xsi"),
    ("http://purl.org/dc/elements/1.1/", "dc")]

/-- Whether a prefix is `ns` and a number. -/
def isReserved (label : String) : Bool :=
  match label.toList with
  | 'n' :: 's' :: digits => !digits.isEmpty && digits.all Text.isDecimal
  | _ => false

/-- Registers a prefix for a namespace, dropping what either was registered with. -/
def register (registry : Registry) (uri label : String) : Except RegistryFault Registry :=
  if isReserved label then .error .reserved
  else
    .ok ((List.filter (fun entry => !(entry.1 == uri || entry.2 == label)) registry)
      ++ [(uri, label)])

/-- Registers all prefixes of a table, in order, up to the first that is reserved. -/
def registerAll (registry : Registry) : Entries String String → Registry × Option RegistryFault
  | [] => (registry, none)
  | (uri, label) :: rest =>
    match registry.register uri label with
    | .error fault => (registry, some fault)
    | .ok registry => registerAll registry rest

end Registry

/-! ## Prefixes of a document -/

/-- An expanded name split into namespace and local part at the last closing brace; no namespace
if it does not begin with a brace. -/
def splitExpanded (name : String) : Except NameFault (Option String × String) :=
  match name.toList with
  | '\x7b' :: rest =>
    match splitAtLast '\x7d' rest with
    | some (uri, part) => .ok (some (String.ofList uri), String.ofList part)
    | none => .error .unclosedBrace
  | _ => .ok (none, name)

/-- The prefixes chosen so far for the namespaces of a document. -/
abbrev Labels := Entries String String

namespace Labels

def prefixOf (registry : Registry) (labels : Labels) (uri : String) : String :=
  match labels.value? uri with
  | some label => label
  | none =>
    match registry.value? uri with
    | some label => label
    | none => "ns" ++ Number.intText labels.length

/-- Chooses a prefix for the namespace of a name. The prefix `xml` needs no declaration. -/
def meet (registry : Registry) (labels : Labels) (name : String) : Except NameFault Labels :=
  match splitExpanded name with
  | .error fault => .error fault
  | .ok (none, _) => .ok labels
  | .ok (some uri, _) =>
    let label := labels.prefixOf registry uri
    .ok (if label == "xml" then labels else labels.put uri label)

/-- The names of a tree in the order in which they are met: every element before its attributes. -/
def names (root : Node) : List String :=
  root.preorder.flatMap fun node => node.name :: node.attributes.keys

def ofTree (registry : Registry) (root : Node) : Except NameFault Labels :=
  (names root).foldlM (meet registry) []

def written (registry : Registry) (labels : Labels) (name : String) : String :=
  match splitExpanded name with
  | .ok (some uri, part) =>
    let label := labels.prefixOf registry uri
    if label.isEmpty then part else label ++ ":" ++ part
  | _ => name

/-- The declarations, sorted by prefix. -/
def declarations (labels : Labels) : List (String × String) :=
  List.mergeSort (labels.map fun (uri, label) => (label, uri)) fun a b => a.1 ≤ b.1

end Labels

/-! ## Text -/

def textChar (c : Char) : List Char :=
  if c == '&' then "&amp;".toList
  else if c == '<' then "&lt;".toList
  else if c == '>' then "&gt;".toList
  else [c]

def valueChar (c : Char) : List Char :=
  if c == '"' then "&quot;".toList
  else if c == '\r' then "&#13;".toList
  else if c == '\n' then "&#10;".toList
  else if c == '\t' then "&#09;".toList
  else textChar c

/-- An attribute with a blank in front. -/
def attributeChars (name value : String) : List Char :=
  ' ' :: name.toList ++ '=' :: '"' :: value.toList.flatMap valueChar ++ ['"']

/-! ## Trees -/

mutual

/-- A node and the text that follows it, with declarations in front of its attributes. -/
def nodeChars (written : String → String) (declarations : List (String × String)) :
    Node → List Char
  | ⟨_, name, attributes, text, children, tail⟩ =>
    let label := (written name).toList
    let tag := '<' :: label
      ++ declarations.flatMap (fun (p, uri) =>
        attributeChars (if p.isEmpty then "xmlns" else "xmlns:" ++ p) uri)
      ++ List.flatMap (fun (name, value) => attributeChars (written name) value) attributes
    let inside := text.flatMap textChar ++ nodesChars written children
    (if text.isEmpty && children.isEmpty then tag ++ [' ', '/', '>']
      else tag ++ '>' :: inside ++ '<' :: '/' :: label ++ ['>'])
      ++ tail.flatMap textChar

/-- Several nodes, each with the text that follows it. -/
def nodesChars (written : String → String) : List Node → List Char
  | [] => []
  | node :: rest => nodeChars written [] node ++ nodesChars written rest

end

/-- A tree as text, with the prefixes registered. -/
def render (registry : Registry) (root : Node) : Except NameFault String :=
  (Labels.ofTree registry root).map fun labels =>
    String.ofList (nodeChars (labels.written registry) labels.declarations root)

end Cuesheet.Xml
