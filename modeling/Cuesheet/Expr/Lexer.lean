import Cuesheet.Expr.Token

/-!
# From characters to tokens

Blanks separate tokens and mean nothing else. Three rules look around a character: a dot begins
a number when a digit follows it, unless a property could hang off the token before it; a hyphen
continues a name when a letter follows it; and letters after a number are its unit only if the
unit is not the beginning of a longer word.
-/

namespace Cuesheet

/-- Why a text is not a sequence of tokens. -/
inductive LexFault where
  | invalidNumber (raw : String)
  | unknownUnit (unit : String) (raw : String)
  | unexpectedCharacter (c : Char)
  deriving DecidableEq, Repr

/-- The wording of a lexical fault. -/
def LexFault.message : LexFault → String
  | .invalidNumber raw => "Invalid number '" ++ raw ++ "'"
  | .unknownUnit unit raw => "Unknown unit '" ++ unit ++ "' after '" ++ raw ++ "'"
  | .unexpectedCharacter c => "Unexpected character '" ++ String.singleton c ++ "'"

namespace Lexeme

/-! ## Character classes -/

/-- Whether a character may begin a name. -/
def isNameStart (c : Char) : Bool := c.isAlpha || c == '_'

/-- Whether a character may continue a name. -/
def isNameChar (c : Char) : Bool := c.isAlphanum || c == '_'

/-- Whether a character may continue a number. -/
def isNumberChar (c : Char) : Bool := Text.isDigit c || c == '.'

/-- Whether the characters begin with one that satisfies `p`. -/
def startsWith (p : Char → Bool) : List Char → Bool
  | [] => false
  | c :: _ => p c

/-! ## The three longer tokens -/

/-- The longest run of name characters in front, a hyphen counting when a letter follows it. -/
def nameRun : List Char → List Char
  | [] => []
  | c :: rest =>
    if isNameChar c || (c == '-' && startsWith isNameStart rest) then c :: nameRun rest else []

/-- Whether the characters begin with a unit that is not the start of a longer word. -/
def beginsWithUnit (cs : List Char) (unit : TimeUnit) : Bool :=
  unit.text.toList.isPrefixOf cs && !startsWith isNameChar (cs.drop unit.text.length)

/-- The unit in front, if there is one. -/
def unit? (cs : List Char) : Option TimeUnit := TimeUnit.all.find? (beginsWithUnit cs)

def unitSpan : Option TimeUnit → List Char
  | none => []
  | some unit => unit.text.toList

/-- The number whose characters are `raw`, with the characters that follow it. -/
def number (raw after : List Char) : Except LexFault Lexeme :=
  match RealLiteral.ofText? (String.ofList raw) with
  | none => .error (.invalidNumber (String.ofList raw))
  | some value =>
    let unit := unit? after
    if unit.isNone && startsWith isNameStart after then
      let word := after.takeWhile fun c => !Text.isBlank c
      .error (.unknownUnit (String.ofList word) (String.ofList raw))
    else .ok { token := .number value unit, span := raw ++ unitSpan unit }

/-! ## Scanning -/

def single? (c : Char) : Option Token :=
  if c == '+' then some (.op .add)
  else if c == '-' then some (.op .sub)
  else if c == '*' then some (.op .mul)
  else if c == '/' then some (.op .div)
  else if c == '(' then some .openParen
  else if c == ')' then some .closeParen
  else if c == ',' then some .comma
  else none

/-- Whether a dot in front of `rest` begins a number. -/
def dotBeginsNumber (previous : Option Token) (rest : List Char) : Bool :=
  startsWith Text.isDigit rest && !previous.any Token.takesProperty

/-- The lexeme that begins with the character `c`, which is not blank. -/
def next (previous : Option Token) (c : Char) (rest : List Char) : Except LexFault Lexeme :=
  match single? c with
  | some token => .ok { token, span := [c] }
  | none =>
    if c == '.' && !dotBeginsNumber previous rest then .ok { token := .dot, span := [c] }
    else if isNumberChar c then
      number (c :: rest.takeWhile isNumberChar) (rest.dropWhile isNumberChar)
    else if isNameStart c then
      let run := nameRun (c :: rest)
      .ok { token := .name (String.ofList run), span := run }
    else .error (.unexpectedCharacter c)

/-- The lexemes of the characters, given the token before them. -/
def scan (previous : Option Token) : List Char → Except LexFault (List Lexeme)
  | [] => .ok []
  | c :: rest =>
    if Text.isBlank c then scan previous rest
    else
      match next previous c rest with
      | .error fault => .error fault
      | .ok lexeme =>
        match scan (some lexeme.token) (rest.drop (lexeme.span.length - 1)) with
        | .error fault => .error fault
        | .ok lexemes => .ok (lexeme :: lexemes)
termination_by cs => cs.length
decreasing_by all_goals simp only [List.length_cons, List.length_drop]; omega

end Lexeme

def tokenize (s : String) : Except LexFault (List Token) :=
  (Lexeme.scan none s.toList).map (List.map Lexeme.token)

end Cuesheet
