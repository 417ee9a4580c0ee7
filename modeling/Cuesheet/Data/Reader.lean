import Cuesheet.Data.Datum
import Cuesheet.Number.Literal
import Cuesheet.Text.Remainder

/-!
# Reading data from text

The notation of data in attributes: objects, arrays, strings, numbers and the words `null`,
`true`, `false`, `NaN`, `Infinity` and `-Infinity`, with spaces, tabs and line ends between them.
A number with a fraction or an exponent is a double, any other an integer. Of a repeated key the
last value counts, in the place of the first.

Every reader takes characters off the front and returns the rest with a proof that it is shorter.
-/

namespace Cuesheet

/-- Why a text is not a data value. -/
inductive DataFault where
  | byteOrderMark
  | expectingValue
  | expectingProperty
  | expectingColon
  | expectingComma
  | extraData
  | unterminatedString
  | controlCharacter
  | escape
  | unicodeEscape
  /-- An integer of too many digits. -/
  | arith (fault : ArithFault)
  deriving DecidableEq, Repr

def DataFault.message : DataFault → String
  | .byteOrderMark => "Unexpected UTF-8 BOM (decode using utf-8-sig)"
  | .expectingValue => "Expecting value"
  | .expectingProperty => "Expecting property name enclosed in double quotes"
  | .expectingColon => "Expecting ':' delimiter"
  | .expectingComma => "Expecting ',' delimiter"
  | .extraData => "Extra data"
  | .unterminatedString => "Unterminated string starting at"
  | .controlCharacter => "Invalid control character at"
  | .escape => "Invalid \\escape"
  | .unicodeEscape => "Invalid \\uXXXX escape"
  | .arith fault => fault.message

namespace Datum.Reader

/-- What is read off the front of `cs`, with a rest that is strictly shorter. -/
abbrev Read (α : Type) (cs : List Char) :=
  Except DataFault (α × { rest : List Char // rest.length < cs.length })

/-! ## Blanks -/

/-- Whether a character may stand between the parts of a value. -/
def isGap (c : Char) : Bool := c == ' ' || c == '\t' || c == '\n' || c == '\r'

/-- The characters after the blanks in front. -/
def skipGap : List Char → List Char
  | [] => []
  | c :: rest => if isGap c then skipGap rest else c :: rest

theorem length_skipGap_le (cs : List Char) : (skipGap cs).length ≤ cs.length := by
  induction cs with
  | nil => exact Nat.le_refl _
  | cons c rest ih =>
    rw [skipGap]
    split
    · simp only [List.length_cons]; omega
    · exact Nat.le_refl _

theorem length_lt_of_skipGap {cs rest : List Char} {c : Char} (h : skipGap cs = c :: rest) :
    rest.length < cs.length := by
  have := length_skipGap_le cs
  rw [h] at this
  exact this

/-! ## Strings -/

/-- The number of four hexadecimal digits. -/
def hexNumber? (a b c d : Char) : Option Nat := do
  let a ← Text.hexValue? a
  let b ← Text.hexValue? b
  let c ← Text.hexValue? c
  let d ← Text.hexValue? d
  return ((a * 16 + b) * 16 + c) * 16 + d

/-- Whether a code unit is the first half of a pair. -/
def isHighHalf (n : Nat) : Bool := 0xD800 ≤ n && n ≤ 0xDBFF

/-- Whether a code unit is the second half of a pair. -/
def isLowHalf (n : Nat) : Bool := 0xDC00 ≤ n && n ≤ 0xDFFF

/-- The character of a code unit; half a pair by itself is a replacement character. -/
def unitChar (n : Nat) : Char :=
  if isHighHalf n || isLowHalf n then '\uFFFD' else Char.ofNat n

/-- The character of a pair of code units. -/
def pairChar (high low : Nat) : Char :=
  Char.ofNat (0x10000 + (high - 0xD800) * 0x400 + (low - 0xDC00))

def escapeChar? (c : Char) : Option Char :=
  if c == '"' || c == '\\' || c == '/' then some c
  else if c == 'b' then some '\x08'
  else if c == 'f' then some '\x0C'
  else if c == 'n' then some '\n'
  else if c == 'r' then some '\r'
  else if c == 't' then some '\t'
  else none

/-- The second half of a pair that is escaped in front, something following it. -/
def secondHalf : (cs : List Char) →
    Except DataFault (Option (Nat × { rest : List Char // rest.length < cs.length }))
  | '\\' :: 'u' :: a :: b :: c :: d :: e :: rest =>
    match hexNumber? a b c d with
    | none => .error .unicodeEscape
    | some n =>
      .ok (if isLowHalf n then some (n, ⟨e :: rest, by simp only [List.length_cons]; omega⟩)
        else none)
  | _ => .ok none

/-- The character of a numeric escape whose code unit is `n`, `cs` being what follows it. -/
def unitEscape (n : Nat) (cs : List Char) :
    Except DataFault (Char × { rest : List Char // rest.length ≤ cs.length }) :=
  if isHighHalf n then
    match secondHalf cs with
    | .error fault => .error fault
    | .ok none => .ok (unitChar n, ⟨cs, Text.length_le_self cs⟩)
    | .ok (some (n', ⟨rest, h⟩)) => .ok (pairChar n n', ⟨rest, Nat.le_of_lt h⟩)
  else .ok (unitChar n, ⟨cs, Text.length_le_self cs⟩)

/-- The character of an escape, `rest` being what follows the backslash. A numeric escape must
have something after it. -/
def escape : (rest : List Char) →
    Except DataFault (Char × { after : List Char // after.length < rest.length })
  | [] => .error .unterminatedString
  | 'u' :: a :: b :: c :: d :: e :: after =>
    match hexNumber? a b c d with
    | none => .error .unicodeEscape
    | some n =>
      match unitEscape n (e :: after) with
      | .error fault => .error fault
      | .ok (ch, ⟨rest, h⟩) => .ok (ch, ⟨rest, by simp only [List.length_cons] at h ⊢; omega⟩)
  | 'u' :: _ => .error .unicodeEscape
  | c :: after =>
    match escapeChar? c with
    | some ch => .ok (ch, ⟨after, Text.length_lt_cons c after⟩)
    | none => .error .escape

/-- Reads a string to its closing quote; `read` holds the characters so far, last one first. -/
def string (read : List Char) : (cs : List Char) → Read String cs
  | [] => .error .unterminatedString
  | c :: rest =>
    if c == '"' then .ok (String.ofList read.reverse, ⟨rest, Text.length_lt_cons c rest⟩)
    else if c == '\\' then
      match escape rest with
      | .error fault => .error fault
      | .ok (ch, ⟨after, h⟩) =>
        match string (ch :: read) after with
        | .error fault => .error fault
        | .ok (s, ⟨rest', h'⟩) => .ok (s, ⟨rest', Text.length_lt_cons_of_lt_of_lt c h' h⟩)
    else if c.toNat < 0x20 then .error .controlCharacter
    else
      match string (c :: read) rest with
      | .error fault => .error fault
      | .ok (s, ⟨rest', h'⟩) => .ok (s, ⟨rest', Text.length_lt_cons_of_lt c h'⟩)
termination_by cs => cs.length
decreasing_by
  · exact Text.length_lt_cons_of_lt c h
  · exact Text.length_lt_cons c rest

/-! ## Numbers and words -/

def isAsciiDigit (c : Char) : Bool := '0' ≤ c && c ≤ '9'

def digitValues (cs : List Char) : List Nat := cs.map fun c => c.toNat - 48

/-- The digits of a fraction in front: a point with a digit after it. -/
def fractionDigits : List Char → Option (List Char)
  | '.' :: c :: rest => if isAsciiDigit c then some (c :: rest.takeWhile isAsciiDigit) else none
  | _ => none

/-- An exponent in front: its length and its value. -/
def exponent? : List Char → Option (Nat × Int)
  | c :: rest =>
    if c == 'e' || c == 'E' then
      let (negative, after) := Number.spanSign rest
      let digits := after.takeWhile isAsciiDigit
      if digits.isEmpty then none
      else
        let e : Int := Text.ofDigits (digitValues digits)
        some (1 + (rest.length - after.length) + digits.length, if negative then -e else e)
    else none
  | [] => none

/-- The whole digits in front: a zero alone, or digits without a zero in front. -/
def wholeDigits : List Char → List Char
  | [] => []
  | c :: rest =>
    if c == '0' then ['0'] else if isAsciiDigit c then c :: rest.takeWhile isAsciiDigit else []

/-- Reads a number: its value and its length. `none` if there is no number in front. -/
def number? (cs : List Char) : Except DataFault (Option (Number × Nat)) :=
  let negative : Bool := cs.head? == some '-'
  let unsigned := if negative then cs.drop 1 else cs
  let whole := wholeDigits unsigned
  let signLength := if negative then 1 else 0
  if whole.isEmpty then .ok none
  else
    let rest := unsigned.drop whole.length
    let places := (fractionDigits rest).getD []
    let fractionLength := if places.isEmpty then 0 else 1 + places.length
    let power := exponent? (rest.drop fractionLength)
    if places.isEmpty && power.isNone then
      match Number.ofDigits negative (digitValues whole) with
      | .error fault => .error (.arith fault)
      | .ok n => .ok (some (.int n, signLength + whole.length))
    else
      let (powerLength, e) := power.getD (0, 0)
      let literal : RealLiteral :=
        .finite negative (Text.ofDigits (digitValues (whole ++ places))) (e - places.length)
      .ok (some (.real literal.toFloat,
        signLength + whole.length + fractionLength + powerLength))

def wordValues : List (String × Datum) :=
  [("null", .null), ("true", .bool true), ("false", .bool false), ("NaN", .number (.real (0.0 / 0.0))),
    ("Infinity", .number (.real (1.0 / 0.0))), ("-Infinity", .number (.real (-(1.0 / 0.0))))]

/-- Reads a word or a number. -/
def scalar (cs : List Char) : Read Datum cs :=
  match wordValues.find? fun (word, _) => word.toList.isPrefixOf cs with
  | some (word, d) =>
    let rest := cs.drop word.length
    if h : rest.length < cs.length then .ok (d, ⟨rest, h⟩) else .error .expectingValue
  | none =>
    match number? cs with
    | .error fault => .error fault
    | .ok none => .error .expectingValue
    | .ok (some (n, length)) =>
      let rest := cs.drop length
      if h : rest.length < cs.length then .ok (.number n, ⟨rest, h⟩) else .error .expectingValue

/-! ## Values -/

/-- Reads one given character after any blanks, if it is there. -/
def mark? (c : Char) (cs : List Char) : Option { rest : List Char // rest.length < cs.length } :=
  match h : skipGap cs with
  | d :: rest => if d == c then some ⟨rest, length_lt_of_skipGap h⟩ else none
  | [] => none

/-- Reads a string with its quotes, if one begins after any blanks. -/
def quotedString? (cs : List Char) : Option (Read String cs) :=
  match mark? '"' cs with
  | none => none
  | some ⟨rest, h⟩ =>
    match string [] rest with
    | .error fault => some (.error fault)
    | .ok (s, ⟨rest', h'⟩) => some (.ok (s, ⟨rest', Text.length_lt_trans h' h⟩))

mutual

/-- Reads a value after any blanks. -/
def value (cs : List Char) : Read Datum cs :=
  match quotedString? cs with
  | some (.error fault) => .error fault
  | some (.ok (s, rest)) => .ok (.text s, rest)
  | none =>
    match mark? '[' cs with
    | some ⟨rest, h⟩ =>
      match mark? ']' rest with
      | some ⟨after, h'⟩ => .ok (.list [], ⟨after, Text.length_lt_trans h' h⟩)
      | none =>
        match items rest with
        | .error fault => .error fault
        | .ok (ds, ⟨rest', h'⟩) => .ok (.list ds, ⟨rest', Text.length_lt_trans h' h⟩)
    | none =>
      match mark? '\x7b' cs with
      | some ⟨rest, h⟩ =>
        match mark? '\x7d' rest with
        | some ⟨after, h'⟩ => .ok (.map [], ⟨after, Text.length_lt_trans h' h⟩)
        | none =>
          match fields [] rest with
          | .error fault => .error fault
          | .ok (fs, ⟨rest', h'⟩) => .ok (.map fs, ⟨rest', Text.length_lt_trans h' h⟩)
      | none =>
        match scalar (skipGap cs) with
        | .error fault => .error fault
        | .ok (d, ⟨rest, h⟩) =>
          .ok (d, ⟨rest, Nat.lt_of_lt_of_le h (length_skipGap_le cs)⟩)
termination_by 2 * cs.length

/-- Reads the items of an array, the first of which begins here, to the closing bracket. -/
def items (cs : List Char) : Read (List Datum) cs :=
  match value cs with
  | .error fault => .error fault
  | .ok (d, ⟨rest, h⟩) =>
    match mark? ']' rest with
    | some ⟨after, h'⟩ => .ok ([d], ⟨after, Text.length_lt_trans h' h⟩)
    | none =>
      match mark? ',' rest with
      | none => .error .expectingComma
      | some ⟨after, h'⟩ =>
        match items after with
        | .error fault => .error fault
        | .ok (ds, ⟨rest', h''⟩) => .ok (d :: ds, ⟨rest', Text.length_lt_trans₃ h'' h' h⟩)
termination_by 2 * cs.length + 1

/-- Reads the fields of an object, the first of which begins here, to the closing brace, adding
them to those read before. -/
def fields (read : Fields) (cs : List Char) : Read Fields cs :=
  match quotedString? cs with
  | none => .error .expectingProperty
  | some (.error fault) => .error fault
  | some (.ok (key, ⟨rest, h⟩)) =>
    match mark? ':' rest with
    | none => .error .expectingColon
    | some ⟨rest1, h1⟩ =>
      match value rest1 with
      | .error fault => .error fault
      | .ok (d, ⟨rest2, h2⟩) =>
        match mark? '\x7d' rest2 with
        | some ⟨after, h3⟩ => .ok (read.put key d, ⟨after, by omega⟩)
        | none =>
          match mark? ',' rest2 with
          | none => .error .expectingComma
          | some ⟨after, h3⟩ =>
            match fields (read.put key d) after with
            | .error fault => .error fault
            | .ok (fs, ⟨rest', h4⟩) => .ok (fs, ⟨rest', by omega⟩)
termination_by 2 * cs.length + 1

end

end Datum.Reader

/-- Reads the value that a text holds, blanks around it ignored. -/
def Datum.ofText (s : String) : Except DataFault Datum :=
  match s.toList with
  | '\uFEFF' :: _ => .error .byteOrderMark
  | cs =>
    match Datum.Reader.value cs with
    | .error fault => .error fault
    | .ok (d, ⟨rest, _⟩) =>
      if (Datum.Reader.skipGap rest).isEmpty then .ok d else .error .extraData

end Cuesheet
