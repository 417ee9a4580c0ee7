import Cuesheet.Xml.Doctype

/-!
# The content of elements

Content is text, elements, references, comments, processing instructions and literal sections; of
these, text and elements are kept, with references replaced. The text of an entity is content of
its own: the elements that begin in it end in it.
-/

namespace Cuesheet.Xml

/-- A piece of content. Names are as written. -/
inductive Item where
  | text (cs : List Char)
  | element (name : List Char) (attributes : List (String × String)) (content : List Item)
  deriving Repr

namespace Item

/-! ## Attributes -/

/-- What ends the opening tag of an element. -/
inductive TagEnd where
  | empty
  | opened
  deriving DecidableEq, Repr

/-- The end of an opening tag, if it is in front. -/
def tagEnd? (cs : List Char) : Option (TagEnd × Rest cs) :=
  match after? ['/', '>'] cs, after? ['>'] cs with
  | some rest, _ => some (.empty, rest)
  | none, some rest => some (.opened, rest)
  | none, none => none

theorem length_lt_of_attribute {rest5 rest4 rest3 rest2 rest1 cs : List Char}
    (h5 : rest5.length < rest4.length) (h4 : rest4.length ≤ rest3.length)
    (h3 : rest3.length < rest2.length) (h2 : rest2.length ≤ rest1.length)
    (h1 : rest1.length < cs.length) : rest5.length < cs.length := by
  omega

/-- Reads one attribute as it is written: its name and what stands between the quotes. -/
def writtenAttribute (cs : List Char) : Read (List Char × List Char) cs :=
  match qualifiedName cs with
  | .error fault => .error fault
  | .ok (name, ⟨rest1, h1⟩) =>
    let ⟨rest2, h2⟩ := skipSpace rest1
    match afterChar? '=' rest2 with
    | none => .error .invalidToken
    | some ⟨rest3, h3⟩ =>
      let ⟨rest4, h4⟩ := skipSpace rest3
      match quotedValue rest4 with
      | .error fault => .error fault
      | .ok (raw, ⟨rest5, h5⟩) => .ok ((name, raw), ⟨rest5, length_lt_of_attribute h5 h4 h3 h2 h1⟩)

/-- Reads the attributes of a tag to the end of the tag. Attributes stand apart from what precedes
them. -/
def readAttributes (entities : Entities) (rules : List AttributeRule) (cs : List Char) :
    Except Fault (List (String × String) × TagEnd × Rest cs) :=
  let ⟨body, hbody⟩ := skipSpace cs
  match tagEnd? body with
  | some (tagEnd, ⟨rest, h⟩) => .ok ([], tagEnd, ⟨rest, Text.length_le_trans h hbody⟩)
  | none =>
    if body.length = cs.length then .error .invalidToken
    else
      match writtenAttribute body with
      | .error fault => .error fault
      | .ok ((name, raw), ⟨rest, h⟩) =>
        match entities.attributeValue raw with
        | .error fault => .error fault
        | .ok value =>
          match readAttributes entities rules rest with
          | .error fault => .error fault
          | .ok (more, tagEnd, ⟨rest', h'⟩) =>
            let name := String.ofList name
            let tokens := rules.any fun rule => rule.name == name && rule.tokens
            let value := String.ofList (if tokens then tokenValue value else value)
            if more.any (·.1 == name) then .error .duplicateAttribute
            else
              .ok ((name, value) :: more, tagEnd,
                ⟨rest', Text.length_le_of_le_of_lt_of_le h' h hbody⟩)
termination_by cs.length
decreasing_by exact Text.length_lt_of_lt_of_le h hbody

/-- Adds the default values of attributes that are not given. -/
def withDefaults (rules : List AttributeRule) (given : List (String × String)) :
    List (String × String) :=
  given ++ rules.filterMap fun rule =>
    if given.any (·.1 == rule.name) then none
    else rule.default.map fun value => (rule.name, String.ofList value)

/-! ## Content -/

def plainRun (cs : List Char) : List Char := cs.takeWhile fun c => c != '<' && c != '&'

/-- Whether characters hold the end mark of a literal section. -/
def holdsSectionEnd (cs : List Char) : Bool := (until? [']', ']', '>'] cs).isSome

mutual

/-- Reads content up to the end of the characters or the closing tag of the element around it. -/
def readContent (entities : Entities) (rules : Entries String (List AttributeRule))
    (cs : List Char) : Except Fault (List Item × Rest cs) :=
  match cs with
  | [] => .ok ([], ⟨[], Nat.zero_le _⟩)
  | '<' :: '/' :: rest => .ok ([], ⟨'<' :: '/' :: rest, Nat.le_refl _⟩)
  | '<' :: '!' :: '-' :: '-' :: rest =>
    match comment rest with
    | .error fault => .error fault
    | .ok ⟨rest', h⟩ =>
      match readContent entities rules rest' with
      | .error fault => .error fault
      | .ok (items, ⟨after, h'⟩) =>
        .ok (items, ⟨after, by simp only [List.length_cons]; omega⟩)
  | '<' :: '!' :: rest =>
    match after? "[CDATA[".toList rest with
    | none => .error .invalidToken
    | some ⟨body, hbody⟩ =>
      match until? [']', ']', '>'] body with
      | none => .error .invalidToken
      | some (literal, ⟨rest', h⟩) =>
        match readContent entities rules rest' with
        | .error fault => .error fault
        | .ok (items, ⟨after, h'⟩) =>
          .ok (.text literal :: items, ⟨after, by simp only [List.length_cons]; omega⟩)
  | '<' :: '?' :: rest =>
    match instruction rest with
    | .error fault => .error fault
    | .ok ⟨rest', h⟩ =>
      match readContent entities rules rest' with
      | .error fault => .error fault
      | .ok (items, ⟨after, h'⟩) =>
        .ok (items, ⟨after, by simp only [List.length_cons]; omega⟩)
  | '<' :: rest =>
    match readElement entities rules rest with
    | .error fault => .error fault
    | .ok (item, ⟨rest', h⟩) =>
      match readContent entities rules rest' with
      | .error fault => .error fault
      | .ok (items, ⟨after, h'⟩) =>
        .ok (item :: items, ⟨after, by simp only [List.length_cons]; omega⟩)
  | '&' :: rest =>
    match reference rest with
    | .error fault => .error fault
    | .ok (r, ⟨rest', h⟩) =>
      let replacement : Except Fault (List Item) :=
        match r with
        | .char c => .ok [.text [c]]
        | .entity name =>
          match entities.enter? name with
          | .error fault => .error fault
          | .ok none => .error .undefinedEntity
          | .ok (some (named, ⟨inner, _⟩)) =>
            match readContent inner rules named with
            | .error fault => .error fault
            | .ok (items, ⟨[], _⟩) => .ok items
            | .ok _ => .error .mismatchedTag
      match replacement with
      | .error fault => .error fault
      | .ok replaced =>
        match readContent entities rules rest' with
        | .error fault => .error fault
        | .ok (items, ⟨after, h'⟩) =>
          .ok (replaced ++ items, ⟨after, by simp only [List.length_cons]; omega⟩)
  | c :: rest =>
    let run := c :: plainRun rest
    if holdsSectionEnd run then .error .invalidToken
    else
      match readContent entities rules (rest.drop (plainRun rest).length) with
      | .error fault => .error fault
      | .ok (items, ⟨after, h'⟩) =>
        .ok (.text run :: items, ⟨after, by
          simp only [List.length_cons, List.length_drop] at *
          omega⟩)
termination_by (entities.texts.length, cs.length, 0)

/-- Reads an element after its opening bracket. -/
def readElement (entities : Entities) (rules : Entries String (List AttributeRule))
    (cs : List Char) : Read Item cs :=
  match qualifiedName cs with
  | .error fault => .error fault
  | .ok (name, ⟨rest1, h1⟩) =>
    let own := (rules.value? (String.ofList name)).getD []
    match readAttributes entities own rest1 with
    | .error fault => .error fault
    | .ok (given, .empty, ⟨rest2, h2⟩) =>
      .ok (.element name (withDefaults own given) [], ⟨rest2, by omega⟩)
    | .ok (given, .opened, ⟨rest2, h2⟩) =>
      match readContent entities rules rest2 with
      | .error fault => .error fault
      | .ok (items, ⟨rest3, h3⟩) =>
        match after? ['<', '/'] rest3 with
        | none => .error .unclosedElement
        | some ⟨rest4, h4⟩ =>
          match after? name rest4 with
          | none => .error .mismatchedTag
          | some ⟨rest5, h5⟩ =>
            match afterChar? '>' (skipSpace rest5).1 with
            | none => .error .mismatchedTag
            | some ⟨rest6, h6⟩ =>
              .ok (.element name (withDefaults own given) items,
                ⟨rest6, by have h7 := (skipSpace rest5).2; omega⟩)
termination_by (entities.texts.length, cs.length, 1)

end

end Item

end Cuesheet.Xml
