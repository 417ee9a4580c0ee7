import Cuesheet.Data.Datum
import Cuesheet.Markup.Element

/-!
# Structural patches

A patch is one edit of a document, addressed by id. Its wire form is a map with the name of the
operation under `op`; every other field may be spelled in camel case or in snake case.
-/

namespace Cuesheet

/-- One edit of a document. -/
inductive Patch where
  /-- Inserts the node of some markup under a parent. -/
  | appendNode (parentId nodeXml : String) (index : Option Int)
  | removeNode (nodeId : String)
  /-- Sets an attribute, or removes it. -/
  | setAttr (nodeId name : String) (value : Option String)
  | setText (nodeId textContent : String)
  /-- Puts the node of some markup in the place of a node. -/
  | replaceSubtree (nodeId nodeXml : String)
  | sealScene (sceneId : String)
  deriving DecidableEq, Repr

/-- Why a patch cannot be read or applied. -/
inductive PatchFault where
  | unknownOp (op : Datum)
  /-- The operation is a list or a map, which names nothing. -/
  | unusableOp
  | missingField (op field : String)
  | badIndex (op : String) (index : Datum)
  | badField (op field : String) (value : Datum)
  /-- The value of an attribute is too long to be written. -/
  | unwritable
  | markup (fault : MarkupFault)
  | wrongRoot
  | notFound (op role id : String)
  | sealedScene (id : String)
  /-- What stands in place of a patch is none. -/
  | notAPatch
  deriving Repr

namespace PatchFault

/-- The names of the operations, sorted. -/
def operations : List String :=
  ["appendNode", "removeNode", "replaceSubtree", "sealScene", "setAttr", "setText"]

def message : PatchFault → String
  | unknownOp op => op.telling ("Unknown patch op '" ++ op.asText ++ "'. Expected one of "
      ++ (Datum.list (operations.map .text)).shown)
  | unusableOp => "unhashable patch op"
  | missingField op field => op ++ ": missing required field '" ++ field ++ "'"
  | badIndex op index => index.telling (op ++ ": index must be an integer, got " ++ index.shown)
  | badField op field value =>
    value.telling (op ++ ": " ++ field ++ " must be a string, got " ++ value.shown)
  | unwritable => Datum.unwritable
  | markup fault => fault.message
  | wrongRoot => "XML root must be <vml>, <videoml>, or <video-ml>."
  | notFound op role id => op ++ ": " ++ role ++ " \"" ++ id ++ "\" not found."
  | sealedScene id => "Cannot patch sealed scene \"" ++ id ++ "\"."
  | notAPatch => "not a patch"

/-- Whether a fault says what is wrong with a patch. The others show where something was done with
its data that they do not allow. -/
def isRefusal : PatchFault → Bool
  | unusableOp | unwritable | notAPatch => false
  | unknownOp d | badIndex _ d | badField _ _ d => d.isWritable
  | _ => true

end PatchFault

namespace Patch

/-! ## Wire form -/

/-- A field of a patch: its two spellings, and whether it must be there. -/
structure Field where
  wire : String
  plain : String
  required : Bool := true

/-- The fields of an operation, the required ones first. -/
def fields? : String → Option (List Field)
  | "appendNode" => some [⟨"parentId", "parent_id", true⟩, ⟨"nodeXml", "node_xml", true⟩,
      ⟨"index", "index", false⟩]
  | "removeNode" => some [⟨"nodeId", "node_id", true⟩]
  | "setAttr" => some [⟨"nodeId", "node_id", true⟩, ⟨"name", "name", true⟩,
      ⟨"value", "value", false⟩]
  | "setText" => some [⟨"nodeId", "node_id", true⟩, ⟨"textContent", "text_content", true⟩]
  | "replaceSubtree" => some [⟨"nodeId", "node_id", true⟩, ⟨"nodeXml", "node_xml", true⟩]
  | "sealScene" => some [⟨"sceneId", "scene_id", true⟩]
  | _ => none

/-- The values of the fields that are given, the camel-case spelling first. -/
def given (op : String) (data : Fields) : List Field → Except PatchFault Fields
  | [] => .ok []
  | field :: rest =>
    match (data.value? field.wire).or (data.value? field.plain) with
    | some value => (given op data rest).map ((field.plain, value) :: ·)
    | none =>
      if field.required then .error (.missingField op field.wire) else given op data rest

/-- The index among the values: an integer, or nothing. -/
def index? (op : String) (values : Fields) : Except PatchFault (Option Int) :=
  match values.value? "index" with
  | none => .ok none
  | some .null => .ok none
  | some (.number (.int n)) => .ok (some n)
  | some d => .error (.badIndex op d)

/-- The value of an attribute as text; none if it is null. -/
def valueText : Option Datum → Except PatchFault (Option String)
  | none => .ok none
  | some .null => .ok none
  | some (.bool b) => .ok (some (if b then "true" else "false"))
  | some d => if d.isWritable then .ok (some d.asText) else .error .unwritable

/-- The text fields: all but the index and the value. -/
def texts (op : String) : Fields → Except PatchFault (Entries String String)
  | [] => .ok []
  | (name, value) :: rest =>
    if name == "index" || name == "value" then texts op rest
    else
      match value with
      | .text s => (texts op rest).map ((name, s) :: ·)
      | d => .error (.badField op name d)

/-- The patch of an operation with its fields. -/
def build (op : String) (index : Option Int) (value : Option String)
    (texts : Entries String String) : Patch :=
  let field (name : String) : String := (texts.value? name).getD ""
  match op with
  | "appendNode" => .appendNode (field "parent_id") (field "node_xml") index
  | "removeNode" => .removeNode (field "node_id")
  | "setAttr" => .setAttr (field "node_id") (field "name") value
  | "setText" => .setText (field "node_id") (field "text_content")
  | "replaceSubtree" => .replaceSubtree (field "node_id") (field "node_xml")
  | _ => .sealScene (field "scene_id")

/-- Reads the wire form of a patch. -/
def ofFields (data : Fields) : Except PatchFault Patch :=
  match (data.value? "op").getD .null with
  | .list _ => .error .unusableOp
  | .map _ => .error .unusableOp
  | .text op =>
    match fields? op with
    | none => .error (.unknownOp (.text op))
    | some fields =>
      match given op data fields with
      | .error fault => .error fault
      | .ok values =>
        match index? op values with
        | .error fault => .error fault
        | .ok index =>
          match valueText (values.value? "value") with
          | .error fault => .error fault
          | .ok value =>
            match texts op values with
            | .error fault => .error fault
            | .ok texts => .ok (build op index value texts)
  | op => .error (.unknownOp op)

/-- The name of the operation of a patch. -/
def op : Patch → String
  | appendNode .. => "appendNode"
  | removeNode .. => "removeNode"
  | setAttr .. => "setAttr"
  | setText .. => "setText"
  | replaceSubtree .. => "replaceSubtree"
  | sealScene .. => "sealScene"

/-- A text that may be absent, as data. -/
def optional : Option String → Datum
  | none => .null
  | some s => .text s

/-- The fields of a patch under their snake-case names, the operation first. -/
def toFields (patch : Patch) : Fields :=
  ("op", .text patch.op) ::
    match patch with
    | appendNode parent markup index =>
      [("parent_id", .text parent), ("node_xml", .text markup),
        ("index", match index with
          | none => .null
          | some n => .number (.int n))]
    | removeNode node => [("node_id", .text node)]
    | setAttr node name value =>
      [("node_id", .text node), ("name", .text name), ("value", optional value)]
    | setText node text => [("node_id", .text node), ("text_content", .text text)]
    | replaceSubtree node markup => [("node_id", .text node), ("node_xml", .text markup)]
    | sealScene scene => [("scene_id", .text scene)]

end Patch

end Cuesheet
