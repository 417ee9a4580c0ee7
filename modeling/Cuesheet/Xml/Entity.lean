import Cuesheet.Data.Entries
import Cuesheet.Xml.Scan

/-!
# Entities

A document may name texts and refer to them. While the text of an entity is being read the entity
itself may not be used, so the table of usable entities shrinks with every level and the reading
ends.
-/

namespace Cuesheet.Xml

structure Entities where
  /-- The texts of the entities that may be used. -/
  texts : Entries String (List Char) := []
  /-- Names that may not be used here, and why. -/
  barred : List (String × Fault) := []
  /-- Whether an unknown name in an attribute stands for nothing, because declarations that are
  not read may declare it. -/
  lenient : Bool := false

namespace Entities

theorem length_remove_lt {texts : Entries String (List Char)} {name : String} {text : List Char}
    (h : texts.value? name = some text) : (texts.remove name).length < texts.length := by
  induction texts with
  | nil => simp at h
  | cons entry rest ih =>
    rw [Entries.value?_cons] at h
    simp only [Entries.remove, List.filter_cons]
    by_cases hk : (entry.1 == name) = true
    · simp only [hk, Bool.not_true, Bool.false_eq_true, if_false, List.length_cons]
      exact Nat.lt_succ_of_le (List.length_filter_le _ _)
    · simp only [hk] at h
      simp only [hk, Bool.not_false, if_true, List.length_cons]
      exact Nat.succ_lt_succ (ih h)

/-- The text of an entity and the entities that may be used inside it; `none` for an unknown
name. -/
def enter? (entities : Entities) (name : String) :
    Except Fault (Option (List Char ×
      { inner : Entities // inner.texts.length < entities.texts.length })) :=
  match entities.barred.find? (·.1 == name) with
  | some (_, fault) => .error fault
  | none =>
    match h : entities.texts.value? name with
    | none => .ok none
    | some text =>
      .ok (some (text,
        ⟨{ entities with
            texts := entities.texts.remove name
            barred := (name, .recursiveEntity) :: entities.barred },
          length_remove_lt h⟩))

/-- The value of an attribute: spaces of every kind become blanks and references are replaced. An
opening bracket may not come up, not even inside an entity. -/
def attributeValue (entities : Entities) : (cs : List Char) → Except Fault (List Char)
  | [] => .ok []
  | c :: rest =>
    if isSpace c then (attributeValue entities rest).map (' ' :: ·)
    else if c == '<' then .error .invalidToken
    else if c == '&' then
      match reference rest with
      | .error fault => .error fault
      | .ok (.char ch, ⟨rest', _⟩) => (attributeValue entities rest').map (ch :: ·)
      | .ok (.entity name, ⟨rest', _⟩) =>
        match entities.enter? name with
        | .error fault => .error fault
        | .ok none =>
          if entities.lenient then attributeValue entities rest' else .error .undefinedEntity
        | .ok (some (text, ⟨inner, _⟩)) =>
          match attributeValue inner text with
          | .error fault => .error fault
          | .ok value => (attributeValue entities rest').map (value ++ ·)
    else (attributeValue entities rest).map (c :: ·)
termination_by cs => (entities.texts.length, cs.length)

/-- The text of an entity as it is declared: references to characters are replaced, references to
entities stay. -/
def declaredText : (cs : List Char) → Except Fault (List Char)
  | [] => .ok []
  | c :: rest =>
    if c == '%' then .error .invalidDeclaration
    else if c == '&' then
      match reference rest with
      | .error fault => .error fault
      | .ok (.entity _, ⟨rest', _⟩) =>
        (declaredText rest').map ('&' :: rest.take (rest.length - rest'.length) ++ ·)
      | .ok (.char ch, ⟨rest', _⟩) =>
        let named := rest.head? != some '#'
        if named then
          (declaredText rest').map ('&' :: rest.take (rest.length - rest'.length) ++ ·)
        else (declaredText rest').map (ch :: ·)
    else (declaredText rest).map (c :: ·)
termination_by cs => cs.length
decreasing_by
  · exact Text.length_lt_cons_of_le c ‹_›
  · exact Text.length_lt_cons_of_le c ‹_›
  · exact Text.length_lt_cons_of_le c ‹_›
  · exact Text.length_lt_cons c rest

end Entities

/-- The value without blanks at the ends and with one blank for every run of them. -/
def collapseBlanks : (pending : Bool) → List Char → List Char
  | _, [] => []
  | pending, c :: rest =>
    if c == ' ' then collapseBlanks true rest
    else (if pending then [' ', c] else [c]) ++ collapseBlanks false rest

/-- The value of an attribute that is declared to hold tokens. -/
def tokenValue (cs : List Char) : List Char := collapseBlanks false (cs.dropWhile (· == ' '))

end Cuesheet.Xml
