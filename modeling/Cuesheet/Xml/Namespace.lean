import Cuesheet.Xml.Content
import Cuesheet.Xml.Node

/-!
# Namespaces

Attributes named `xmlns` and `xmlns:p` bind the default namespace and the prefix `p` for their
element and everything in it. Resolving replaces the prefixes of elements and attributes by what
they are bound to and drops the binding attributes; it also lists the bindings in the order in
which they are met.
-/

namespace Cuesheet.Xml

/-- What prefixes are bound to, the innermost binding first. The empty prefix is the default
namespace, the empty namespace none. -/
abbrev Scope := List (String × String)

namespace Scope

/-- The bindings outside the root element. -/
def initial : Scope := [("xml", xmlUri)]

def uri? (scope : Scope) (label : String) : Option String :=
  (scope.find? (·.1 == label)).map (·.2)

/-- A name as written, split into prefix and local part. -/
def splitName (name : String) : Option String × String :=
  match splitAtFirst ':' name.toList with
  | none => (none, name)
  | some (label, rest) => (some (String.ofList label), String.ofList rest)

/-- The prefix that an attribute binds, the empty one for the default namespace. -/
def boundPrefix? (written : String) : Option String :=
  match splitName written with
  | (none, "xmlns") => some ""
  | (some "xmlns", label) => some label
  | _ => none

/-- What is wrong with binding a prefix to a namespace, if anything. -/
def bindingFault? (label uri : String) : Option Fault :=
  if label == "xmlns" || uri == xmlnsUri then some .reservedPrefix
  else if (label == "xml") != (uri == xmlUri) then some .reservedPrefix
  else if uri.isEmpty && !label.isEmpty then some .undeclaredPrefix
  else if uri.toList.contains '\x7d' then some .invalidToken
  else none

/-- The bindings among some attributes, in order. -/
def bindings : List (String × String) → Except Fault (List (String × String))
  | [] => .ok []
  | (name, value) :: rest =>
    match boundPrefix? name with
    | none => bindings rest
    | some label =>
      match bindingFault? label value with
      | some fault => .error fault
      | none => (bindings rest).map ((label, value) :: ·)

def elementName (scope : Scope) (name : String) : Except Fault String :=
  match splitName name with
  | (none, name) =>
    match scope.uri? "" with
    | none => .ok name
    | some uri => .ok (if uri.isEmpty then name else expand uri name)
  | (some label, name) =>
    match scope.uri? label with
    | none => .error .unboundPrefix
    | some uri => .ok (expand uri name)

/-- The expanded name of an attribute. Without a prefix it is in no namespace. -/
def attributeName (scope : Scope) (name : String) : Except Fault String :=
  match splitName name with
  | (none, name) => .ok name
  | (some label, name) =>
    match scope.uri? label with
    | none => .error .unboundPrefix
    | some uri => .ok (expand uri name)

/-- The attributes that bind nothing, under their expanded names. -/
def attributes (scope : Scope) :
    List (String × String) → Except Fault (List (String × String))
  | [] => .ok []
  | (name, value) :: rest =>
    if (boundPrefix? name).isSome then attributes scope rest
    else
      match scope.attributeName name with
      | .error fault => .error fault
      | .ok expanded =>
        match attributes scope rest with
        | .error fault => .error fault
        | .ok more =>
          if more.any (·.1 == expanded) then .error .duplicateAttribute
          else .ok ((expanded, value) :: more)

end Scope

/-- Content with its prefixes resolved: the text in front, the elements with the text after each,
and the bindings met on the way. -/
structure Resolved where
  lead : List Char
  nodes : List Node
  bindings : List (String × String)

/-- Resolves the prefixes in content. -/
def resolve (scope : Scope) : List Item → Except Fault Resolved
  | [] => .ok ⟨[], [], []⟩
  | .text cs :: rest =>
    match resolve scope rest with
    | .error fault => .error fault
    | .ok after => .ok { after with lead := cs ++ after.lead }
  | .element name attributes content :: rest =>
    match Scope.bindings attributes with
    | .error fault => .error fault
    | .ok bound =>
      let inner := bound.reverse ++ scope
      match Scope.elementName inner (String.ofList name), Scope.attributes inner attributes with
      | .error fault, _ => .error fault
      | _, .error fault => .error fault
      | .ok name, .ok attributes =>
        match resolve inner content with
        | .error fault => .error fault
        | .ok inside =>
          match resolve scope rest with
          | .error fault => .error fault
          | .ok after =>
            let node : Node :=
              { name, attributes, text := inside.lead, children := inside.nodes
                tail := after.lead }
            .ok ⟨[], node :: after.nodes, bound ++ inside.bindings ++ after.bindings⟩

end Cuesheet.Xml
