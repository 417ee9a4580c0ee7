import Cuesheet.Text.Digit
import Cuesheet.Text.Remainder
import Cuesheet.Xml.Name

/-!
# The small parts of markup

Names, references, comments, processing instructions and quoted values: everything below the
level of an element. Each reader takes characters off the front and returns the rest together
with a proof that it is shorter. Reading stops at the first fault: a document is read whole or not at
all.
-/

namespace Cuesheet.Xml

/-! ## What makes markup malformed -/

/-- Why a text is not a document. -/
inductive Fault where
  | illegalCharacter
  | invalidToken
  | noElement
  | extraContent
  | unclosedElement
  | mismatchedTag
  | duplicateAttribute
  | invalidReference
  | undefinedEntity
  | recursiveEntity
  | externalEntity
  | invalidDeclaration
  | unboundPrefix
  | reservedPrefix
  | undeclaredPrefix
  deriving DecidableEq, Repr

namespace Fault

def message : Fault → String
  | illegalCharacter => "illegal character"
  | invalidToken => "not well-formed (invalid token)"
  | noElement => "no element found"
  | extraContent => "junk after document element"
  | unclosedElement => "unclosed element"
  | mismatchedTag => "mismatched tag"
  | duplicateAttribute => "duplicate attribute"
  | invalidReference => "reference to invalid character number"
  | undefinedEntity => "undefined entity"
  | recursiveEntity => "recursive entity reference"
  | externalEntity => "reference to external entity"
  | invalidDeclaration => "syntax error in declaration"
  | unboundPrefix => "unbound prefix"
  | reservedPrefix => "reserved prefix must not be declared or undeclared"
  | undeclaredPrefix => "must not undeclare prefix"

def all : List Fault :=
  [illegalCharacter, invalidToken, noElement, extraContent, unclosedElement, mismatchedTag,
    duplicateAttribute, invalidReference, undefinedEntity, recursiveEntity, externalEntity,
    invalidDeclaration, unboundPrefix, reservedPrefix, undeclaredPrefix]

theorem mem_all (fault : Fault) : fault ∈ all := by cases fault <;> simp [all]

end Fault

/-! ## Reading off the front -/

/-- What is read off the front of `cs`, with a rest that is strictly shorter. -/
abbrev Read (α : Type) (cs : List Char) :=
  Except Fault (α × { rest : List Char // rest.length < cs.length })

/-- A rest that is no longer than `cs`. -/
abbrev Rest (cs : List Char) := { rest : List Char // rest.length ≤ cs.length }

/-! ## Spaces, marks and names -/

/-- What follows the spaces in front. -/
def skipSpace (cs : List Char) : Rest cs := ⟨cs.dropWhile isSpace, Text.length_dropWhile_le _ _⟩

def startsWithSpace (cs : List Char) : Bool := cs.head?.any isSpace

/-- What follows the characters `mark` if they are in front. -/
def after? (mark : List Char) (cs : List Char) : Option (Rest cs) :=
  if mark.isPrefixOf cs then some ⟨cs.drop mark.length, by simp⟩ else none

/-- What follows a single character if it is in front. -/
def afterChar? (c : Char) :
    (cs : List Char) → Option { rest : List Char // rest.length < cs.length }
  | d :: rest => if d == c then some ⟨rest, Text.length_lt_cons d rest⟩ else none
  | [] => none

/-- The characters before the first occurrence of `mark`, and what follows it. -/
def until? (mark : List Char) : (cs : List Char) → Option (List Char × Rest cs)
  | [] => if mark.isEmpty then some ([], ⟨[], Nat.le_refl _⟩) else none
  | c :: rest =>
    if mark.isPrefixOf (c :: rest) then some ([], ⟨(c :: rest).drop mark.length, by simp⟩)
    else
      match until? mark rest with
      | none => none
      | some (before, ⟨after, h⟩) =>
        some (c :: before, ⟨after, by simp only [List.length_cons]; omega⟩)

/-- Reads a name without a colon. -/
def simpleName : (cs : List Char) → Read (List Char) cs
  | [] => .error .invalidToken
  | c :: rest =>
    if isNameStart c then
      .ok (c :: rest.takeWhile isNameChar, ⟨rest.dropWhile isNameChar, by
        have := Text.length_dropWhile_le isNameChar rest
        simp only [List.length_cons]
        omega⟩)
    else .error .invalidToken

/-- Reads a name that may have a prefix. -/
def qualifiedName (cs : List Char) : Read (List Char) cs :=
  match simpleName cs with
  | .error fault => .error fault
  | .ok (first, ⟨rest, h⟩) =>
    match afterChar? ':' rest with
    | none => .ok (first, ⟨rest, h⟩)
    | some ⟨afterColon, h'⟩ =>
      match simpleName afterColon with
      | .error fault => .error fault
      | .ok (second, ⟨rest', h''⟩) => .ok (first ++ ':' :: second, ⟨rest', Text.length_lt_trans₃ h'' h' h⟩)

/-! ## What is not content -/

/-- Reads the rest of a comment after its opening mark. Two hyphens only end it. -/
def comment (cs : List Char) : Except Fault (Rest cs) :=
  match until? ['-', '-'] cs with
  | none => .error .invalidToken
  | some (_, ⟨rest, h⟩) =>
    match afterChar? '>' rest with
    | none => .error .invalidToken
    | some ⟨rest', h'⟩ => .ok ⟨rest', Text.length_le_of_lt_of_le h' h⟩

/-- Whether a target is the word `xml` in any case, which is kept for the declaration. -/
def isReservedTarget (target : List Char) : Bool := target.map Char.toLower == ['x', 'm', 'l']

/-- Reads the rest of a processing instruction after its opening mark. -/
def instruction (cs : List Char) : Except Fault (Rest cs) :=
  match simpleName cs with
  | .error fault => .error fault
  | .ok (target, ⟨rest, h⟩) =>
    if isReservedTarget target then .error .invalidToken
    else
      match after? ['?', '>'] rest with
      | some ⟨rest', h'⟩ => .ok ⟨rest', Text.length_le_of_le_of_lt h' h⟩
      | none =>
        if startsWithSpace rest then
          match until? ['?', '>'] rest with
          | none => .error .invalidToken
          | some (_, ⟨rest', h'⟩) => .ok ⟨rest', Text.length_le_of_le_of_lt h' h⟩
        else .error .invalidToken

/-! ## References -/

/-- What stands between `&` and `;`. -/
inductive Reference where
  | char (c : Char)
  | entity (name : String)
  deriving DecidableEq, Repr

def decimalValue? (c : Char) : Option Nat :=
  if '0' ≤ c && c ≤ '9' then some (c.toNat - 48) else none

/-- The number that digits of a base spell; `none` without digits or with other characters. -/
def codeNumber? (base : Nat) (digit? : Char → Option Nat) (cs : List Char) : Option Nat :=
  if cs.isEmpty then none
  else cs.foldlM (fun n c => (digit? c).map (base * n + ·)) 0

def legalChar? (n : Nat) : Option Char :=
  if h : n.isValidChar then
    let c : Char := Char.ofNatAux n h
    if isLegal c then some c else none
  else none

/-- The characters with a name of their own. -/
def namedChars : List (String × Char) :=
  [("lt", '<'), ("gt", '>'), ("amp", '&'), ("quot", '"'), ("apos", '\'')]

/-- What the characters between `&` and `;` refer to. -/
def Reference.ofBody (body : List Char) : Except Fault Reference :=
  match body with
  | '#' :: digits =>
    let code? := match digits with
      | 'x' :: digits => codeNumber? 16 Text.hexValue? digits
      | digits => codeNumber? 10 decimalValue? digits
    match code? with
    | none => .error .invalidToken
    | some n =>
      match legalChar? n with
      | none => .error .invalidReference
      | some c => .ok (.char c)
  | body =>
    if isSimpleName body then
      let name := String.ofList body
      .ok (match namedChars.find? (·.1 == name) with
        | some (_, c) => .char c
        | none => .entity name)
    else .error .invalidToken

/-- Reads a reference after its ampersand. -/
def reference (cs : List Char) : Except Fault (Reference × Rest cs) :=
  match until? [';'] cs with
  | none => .error .invalidToken
  | some (body, rest) => (Reference.ofBody body).map fun r => (r, rest)

/-! ## Quoted values -/

/-- Reads a value between single or double quotes. -/
def quotedValue : (cs : List Char) → Read (List Char) cs
  | [] => .error .invalidToken
  | c :: rest =>
    if c == '"' || c == '\'' then
      match until? [c] rest with
      | none => .error .invalidToken
      | some (value, ⟨rest', h⟩) => .ok (value, ⟨rest', Text.length_lt_cons_of_le c h⟩)
    else .error .invalidToken

end Cuesheet.Xml
