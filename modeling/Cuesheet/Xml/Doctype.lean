import Cuesheet.Xml.Entity

/-!
# The document type

Before its root element a document may declare entities and attributes. Declared attributes get
their default values and, unless they hold character data, have the blanks in their values
collapsed. Declarations of elements and notations are checked for their form only.
-/

namespace Cuesheet.Xml

/-- What is declared about an attribute. -/
structure AttributeRule where
  name : String
  /-- Whether the value is a list of tokens and not character data. -/
  tokens : Bool
  default : Option (List Char)
  deriving DecidableEq, Repr

/-- The declarations that precede the root element. -/
structure Declarations where
  entities : Entities := {}
  /-- The rules for the attributes of an element, by its name as written. -/
  rules : Entries String (List AttributeRule) := []
  /-- Whether the document says that it depends on no other declarations. -/
  standalone : Bool := false
  /-- Whether declarations still count; after a reference to a parameter entity they may be
  overridden by ones that are not read. -/
  counting : Bool := true

namespace Declarations

/-! ## Tokens of a declaration -/

inductive Part where
  | word (cs : List Char)
  | literal (cs : List Char)
  | mark (c : Char)
  /-- How often what stands right in front of it may come up. -/
  | times (c : Char)
  deriving DecidableEq, Repr

/-- Whether a character may stand in a word of a declaration. -/
def isWordChar (c : Char) : Bool := isNameChar c || c == ':'

/-- Whether a character says how often something may come up. -/
def isTimes (c : Char) : Bool := c == '?' || c == '*' || c == '+'

/-- Whether what is in front ends a part, `marks` being the marks that do so. -/
def endsPart (marks : List Char) (cs : List Char) : Bool :=
  cs.head?.any fun c => isSpace c || marks.contains c

/-- Reads a single part that does not begin with a space. Some must have something behind them that
ends them. -/
def part : (cs : List Char) → Read Part cs
  | [] => .error .invalidDeclaration
  | c :: rest =>
    let word := rest.takeWhile isWordChar
    let after : Rest rest := ⟨rest.dropWhile isWordChar, Text.length_dropWhile_le isWordChar rest⟩
    if c == '(' || c == '|' || c == ',' || isTimes c then .ok (.mark c, ⟨rest, Text.length_lt_cons c rest⟩)
    else if c == ')' then
      if endsPart ['>', ',', '|', ')', '?', '*', '+'] rest then .ok (.mark c, ⟨rest, Text.length_lt_cons c rest⟩)
      else .error .invalidToken
    else if c == '%' then
      if startsWithSpace rest then .ok (.mark c, ⟨rest, Text.length_lt_cons c rest⟩) else .error .invalidToken
    else if c == '#' then
      if endsPart ['>', ')', '|'] after.1 then
        .ok (.word (c :: word), ⟨after.1, Nat.lt_succ_of_le after.2⟩)
      else .error .invalidToken
    else if isWordChar c then
      if endsPart ['>', ')', ',', '|', '?', '*', '+'] after.1 then
        .ok (.word (c :: word), ⟨after.1, Nat.lt_succ_of_le after.2⟩)
      else .error .invalidToken
    else
      match quotedValue (c :: rest) with
      | .error fault => .error fault
      | .ok (value, ⟨rest', h⟩) =>
        if endsPart ['>'] rest' then .ok (.literal value, ⟨rest', h⟩) else .error .invalidToken

/-- Joins a part to those that follow it, `glued` saying whether the first of them stands right
behind it. A word or a closing parenthesis may say how often it comes up; nothing else may. -/
def Part.join (p : Part) (glued : Bool) (ps : List Part) : Except Fault (List Part) :=
  let canRepeat := match p with
    | .word _ => true
    | .mark c => c == ')'
    | _ => false
  match ps with
  | .mark c :: rest =>
    if isTimes c then
      if glued && canRepeat then .ok (p :: .times c :: rest) else .error .invalidToken
    else .ok (p :: ps)
  | ps => .ok (p :: ps)

/-- Reads the parts of a declaration up to its closing bracket. -/
def parts : (cs : List Char) → Read (List Part) cs
  | [] => .error .invalidDeclaration
  | c :: rest =>
    if c == '>' then .ok ([], ⟨rest, Text.length_lt_cons c rest⟩)
    else if isSpace c then
      match parts rest with
      | .error fault => .error fault
      | .ok (ps, ⟨after, h⟩) => .ok (ps, ⟨after, Text.length_lt_cons_of_lt c h⟩)
    else
      match part (c :: rest) with
      | .error fault => .error fault
      | .ok (p, ⟨rest', h'⟩) =>
        match parts rest' with
        | .error fault => .error fault
        | .ok (ps, ⟨after, h⟩) =>
          match p.join (!startsWithSpace rest') ps with
          | .error fault => .error fault
          | .ok ps => .ok (ps, ⟨after, Text.length_lt_trans h h'⟩)
termination_by cs => cs.length
decreasing_by
  · exact Text.length_lt_cons c rest
  · exact h'

/-- Whether characters are a name that may have a prefix. -/
def isQualifiedName (cs : List Char) : Bool :=
  match qualifiedName cs with
  | .ok (_, ⟨[], _⟩) => true
  | _ => false

/-- The marks that may stand in a public identifier. -/
def publicMarks : List Char := " \n\r-'()+,./:=?;!*#@$_%".toList

/-- Whether characters may be a public identifier. -/
def isPublicId (cs : List Char) : Bool := cs.all fun c => c.isAlphanum || publicMarks.contains c

/-- What follows an external identifier, if the parts begin with one. -/
def external? : List Part → Option (List Part)
  | .word ['S', 'Y', 'S', 'T', 'E', 'M'] :: .literal _ :: after => some after
  | .word ['P', 'U', 'B', 'L', 'I', 'C'] :: .literal id :: .literal _ :: after =>
    if isPublicId id then some after else none
  | _ => none

/-! ## Entities -/

/-- Reads the text of an entity, as long as declarations count. -/
def entityText (d : Declarations) (value : List Char) : Except Fault (List Char) :=
  if d.counting then Entities.declaredText value else .ok []

/-- Declares an entity unless its name is taken. -/
def declareEntity (d : Declarations) (name : String) (text : Option (List Char)) :
    Declarations :=
  let taken := d.entities.texts.hasKey name || d.entities.barred.any (·.1 == name)
  if taken || !d.counting then d
  else
    let entities := match text with
      | some text => { d.entities with texts := d.entities.texts.put name text }
      | none => { d.entities with barred := (name, .externalEntity) :: d.entities.barred }
    { d with entities }

def entity (d : Declarations) : List Part → Except Fault Declarations
  | [.word name, .literal value] =>
    if isSimpleName name then
      (d.entityText value).map fun text =>
        d.declareEntity (String.ofList name) (some text)
    else .error .invalidDeclaration
  | [.mark '%', .word name, .literal value] =>
    if isSimpleName name then (d.entityText value).map fun _ => d
    else .error .invalidDeclaration
  | .mark '%' :: .word name :: id =>
    if isSimpleName name && external? id == some [] then .ok d else .error .invalidDeclaration
  | .word name :: id =>
    if !isSimpleName name then .error .invalidDeclaration
    else
      match external? id with
      | some [] => .ok (d.declareEntity (String.ofList name) none)
      | some [.word ['N', 'D', 'A', 'T', 'A'], .word format] =>
        if isSimpleName format then .ok (d.declareEntity (String.ofList name) none)
        else .error .invalidDeclaration
      | _ => .error .invalidDeclaration
  | _ => .error .invalidDeclaration

/-! ## Attributes -/

/-- The names of the types of attributes that hold tokens. -/
def tokenTypes : List String :=
  ["ID", "IDREF", "IDREFS", "ENTITY", "ENTITIES", "NMTOKEN", "NMTOKENS"]

/-- Reads the alternatives of an enumeration after its parenthesis. -/
def enumeration (isItem : List Char → Bool) : List Part → Option (List Part)
  | .word cs :: .mark '|' :: rest => if isItem cs then enumeration isItem rest else none
  | .word cs :: .mark ')' :: rest => if isItem cs then some rest else none
  | _ => none

/-- Whether a word is no keyword. -/
def isNameToken (cs : List Char) : Bool := cs.head? != some '#'

/-- Reads the type of an attribute: whether it holds tokens, and what follows. -/
def attributeType : List Part → Option (Bool × List Part)
  | .word ['C', 'D', 'A', 'T', 'A'] :: rest => some (false, rest)
  | .word ['N', 'O', 'T', 'A', 'T', 'I', 'O', 'N'] :: .mark '(' :: rest =>
    (enumeration isSimpleName rest).map (true, ·)
  | .mark '(' :: rest => (enumeration isNameToken rest).map (true, ·)
  | .word type :: rest =>
    if tokenTypes.contains (String.ofList type) then some (true, rest) else none
  | _ => none

/-- Reads a default value, as long as declarations count. -/
def defaultValue (d : Declarations) (value : List Char) : Except Fault (List Char) :=
  if d.counting then d.entities.attributeValue value else .ok []

/-- Reads the default of an attribute: its value if it has one, and what follows. -/
def attributeDefault (d : Declarations) :
    List Part → Except Fault (Option (List Char) × List Part)
  | .word ['#', 'R', 'E', 'Q', 'U', 'I', 'R', 'E', 'D'] :: rest => .ok (none, rest)
  | .word ['#', 'I', 'M', 'P', 'L', 'I', 'E', 'D'] :: rest => .ok (none, rest)
  | .word ['#', 'F', 'I', 'X', 'E', 'D'] :: .literal value :: rest =>
    (d.defaultValue value).map fun v => (some v, rest)
  | .literal value :: rest => (d.defaultValue value).map fun v => (some v, rest)
  | _ => .error .invalidDeclaration

def addRule (rules : Entries String (List AttributeRule)) (element : String)
    (rule : AttributeRule) : Entries String (List AttributeRule) :=
  let old := (rules.value? element).getD []
  if old.any (·.name == rule.name) then rules else rules.put element (old ++ [rule])

/-- Reads the attributes declared for an element; the first argument bounds their number. -/
def attributes (element : String) : Nat → Declarations → List Part → Except Fault Declarations
  | _, d, [] => .ok d
  | 0, _, _ => .error .invalidDeclaration
  | count + 1, d, .word name :: rest =>
    if !isQualifiedName name then .error .invalidDeclaration
    else
      match attributeType rest with
      | none => .error .invalidDeclaration
      | some (tokens, rest) =>
        match d.attributeDefault rest with
        | .error fault => .error fault
        | .ok (value, rest) =>
          let value := if tokens then value.map tokenValue else value
          let rule : AttributeRule := { name := String.ofList name, tokens, default := value }
          let d := if d.counting then { d with rules := addRule d.rules element rule } else d
          attributes element count d rest
  | _, _, _ => .error .invalidDeclaration

/-! ## Other declarations -/

/-- Whether the parts are the rest of a content model that mixes text with elements. -/
def isMixedModel : List Part → Bool
  | [.mark ')', .times '*'] => true
  | .mark '|' :: .word cs :: rest => isQualifiedName cs && isMixedModel rest
  | _ => false

/-- Whether the parts are the rest of a content model of elements. Of each open group the mark
between its members is known, once there was one; `due` says whether a member comes next. -/
def isGroupModel : (groups : List (Option Char)) → (due : Bool) → List Part → Bool
  | [], _, ps => ps.isEmpty
  | mark :: groups, true, .mark '(' :: rest => isGroupModel (none :: mark :: groups) true rest
  | groups, true, .word cs :: .times _ :: rest =>
    isQualifiedName cs && isGroupModel groups false rest
  | groups, true, .word cs :: rest => isQualifiedName cs && isGroupModel groups false rest
  | _ :: groups, false, .mark ')' :: .times _ :: rest => isGroupModel groups false rest
  | _ :: groups, false, .mark ')' :: rest => isGroupModel groups false rest
  | mark :: groups, false, .mark c :: rest =>
    (c == '|' || c == ',') && mark.getD c == c && isGroupModel (some c :: groups) true rest
  | _, _, _ => false

def isContentModel : List Part → Bool
  | [.word ['E', 'M', 'P', 'T', 'Y']] => true
  | [.word ['A', 'N', 'Y']] => true
  | .mark '(' :: .word ['#', 'P', 'C', 'D', 'A', 'T', 'A'] :: rest =>
    rest == [.mark ')'] || isMixedModel rest
  | .mark '(' :: rest => isGroupModel [none] true rest
  | _ => false

/-- Reads a declaration whose keyword has been read. -/
def declaration (d : Declarations) (keyword : List Char) (ps : List Part) :
    Except Fault Declarations :=
  match String.ofList keyword, ps with
  | "ENTITY", ps => d.entity ps
  | "ATTLIST", .word element :: ps =>
    if isQualifiedName element then attributes (String.ofList element) ps.length d ps
    else .error .invalidDeclaration
  | "ELEMENT", .word element :: model =>
    if isQualifiedName element && isContentModel model then .ok d else .error .invalidDeclaration
  | "NOTATION", .word name :: id =>
    let form := match id with
      | [.word ['P', 'U', 'B', 'L', 'I', 'C'], .literal id] => isPublicId id
      | id => external? id == some []
    if isSimpleName name && form then .ok d else .error .invalidDeclaration
  | _, _ => .error .invalidDeclaration

/-- Reads the declarations between the brackets of a document type, and the closing bracket. -/
def inner (d : Declarations) : (cs : List Char) → Read Declarations cs
  | [] => .error .invalidDeclaration
  | c :: rest =>
    if c == ']' then .ok (d, ⟨rest, Text.length_lt_cons c rest⟩)
    else if isSpace c then
      match inner d rest with
      | .error fault => .error fault
      | .ok (d', ⟨after, h⟩) => .ok (d', ⟨after, Text.length_lt_cons_of_lt c h⟩)
    else if c == '%' then
      match until? [';'] rest with
      | none => .error .invalidDeclaration
      | some (name, ⟨rest', h'⟩) =>
        if isSimpleName name then
          let d' := { d with
            counting := d.counting && d.standalone
            entities := { d.entities with lenient := !d.standalone } }
          match inner d' rest' with
          | .error fault => .error fault
          | .ok (d'', ⟨after, h⟩) => .ok (d'', ⟨after, Text.length_lt_cons_of_lt_of_le c h h'⟩)
        else .error .invalidDeclaration
    else
      match after? ['<', '!', '-', '-'] (c :: rest), after? ['<', '?'] (c :: rest),
          after? ['<', '!'] (c :: rest) with
      | some ⟨body, hbody⟩, _, _ =>
        match comment body with
        | .error fault => .error fault
        | .ok ⟨rest', h'⟩ =>
          if hlt : rest'.length < (c :: rest).length then
            match inner d rest' with
            | .error fault => .error fault
            | .ok (d', ⟨after, h⟩) => .ok (d', ⟨after, by omega⟩)
          else .error .invalidDeclaration
      | none, some ⟨body, hbody⟩, _ =>
        match instruction body with
        | .error fault => .error fault
        | .ok ⟨rest', h'⟩ =>
          if hlt : rest'.length < (c :: rest).length then
            match inner d rest' with
            | .error fault => .error fault
            | .ok (d', ⟨after, h⟩) => .ok (d', ⟨after, by omega⟩)
          else .error .invalidDeclaration
      | none, none, some ⟨body, hbody⟩ =>
        match simpleName body with
        | .error fault => .error fault
        | .ok (keyword, ⟨body', hbody'⟩) =>
          if startsWithSpace body' then
            match parts body' with
            | .error fault => .error fault
            | .ok (ps, ⟨rest', h'⟩) =>
              match d.declaration keyword ps with
              | .error fault => .error fault
              | .ok d' =>
                match inner d' rest' with
                | .error fault => .error fault
                | .ok (d'', ⟨after, h⟩) => .ok (d'', ⟨after, by omega⟩)
          else .error .invalidDeclaration
      | none, none, none => .error .invalidDeclaration
termination_by cs => cs.length
decreasing_by all_goals simp only [List.length_cons] at *; omega

def spacedLiteral (cs : List Char) : Read (List Char) cs :=
  if startsWithSpace cs then
    match quotedValue (skipSpace cs).1 with
    | .error fault => .error fault
    | .ok (value, ⟨rest, h⟩) =>
      if endsPart ['>', '['] rest then
        .ok (value, ⟨rest, by have := (skipSpace cs).2; omega⟩)
      else .error .invalidToken
  else .error .invalidDeclaration

/-- Whether a document type refers to something outside the document, and what follows. -/
def externalSubset? (cs : List Char) : Except Fault (Bool × Rest cs) :=
  match after? "SYSTEM".toList cs, after? "PUBLIC".toList cs with
  | some ⟨rest, h⟩, _ =>
    (spacedLiteral rest).map fun (_, ⟨rest', h'⟩) => (true, ⟨rest', Text.length_le_of_lt_of_le h' h⟩)
  | none, some ⟨rest, h⟩ =>
    match spacedLiteral rest with
    | .error fault => .error fault
    | .ok (id, ⟨rest', h'⟩) =>
      if isPublicId id then
        (spacedLiteral rest').map fun (_, ⟨rest'', h''⟩) =>
          (true, ⟨rest'', Text.length_le_of_lt_of_lt_of_le h'' h' h⟩)
      else .error .invalidDeclaration
  | none, none => .ok (false, ⟨cs, Text.length_le_self cs⟩)

/-- Reads a document type after its opening mark. -/
def doctype (d : Declarations) (cs : List Char) : Except Fault (Declarations × Rest cs) :=
  if !startsWithSpace cs then .error .invalidDeclaration
  else
    let ⟨body, hbody⟩ := skipSpace cs
    match qualifiedName body with
    | .error fault => .error fault
    | .ok (_, ⟨rest1, h1⟩) =>
      let ⟨rest2, h2⟩ := skipSpace rest1
      match externalSubset? rest2 with
      | .error fault => .error fault
      | .ok (outside, ⟨rest3, h3⟩) =>
        let ⟨rest4, h4⟩ := skipSpace rest3
        let lenient := outside && !d.standalone
        let finish (d : Declarations) : Declarations :=
          { d with entities := { d.entities with lenient := d.entities.lenient || lenient } }
        let start := finish d
        match afterChar? '[' rest4 with
        | none =>
          match afterChar? '>' rest4 with
          | none => .error .invalidDeclaration
          | some ⟨rest5, h5⟩ => .ok (start, ⟨rest5, by omega⟩)
        | some ⟨rest5, h5⟩ =>
          match start.inner rest5 with
          | .error fault => .error fault
          | .ok (d', ⟨rest6, h6⟩) =>
            let ⟨rest7, h7⟩ := skipSpace rest6
            match afterChar? '>' rest7 with
            | none => .error .invalidDeclaration
            | some ⟨rest8, h8⟩ => .ok (d', ⟨rest8, by omega⟩)

end Declarations

end Cuesheet.Xml
