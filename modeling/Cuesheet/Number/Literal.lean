import Cuesheet.Number.Basic
import Cuesheet.Text.Blank
import Cuesheet.Text.Digit

/-!
# Reading numbers

Three grammars over the decimal digits of every script:

* *real text*: an optional sign, digits with an optional point and exponent, single underscores
  between digits, or the words for infinity and NaN in any case, blanks around it ignored;
* *whole text*: an optional sign and digits with single underscores between them, blanks around
  it ignored;
* *plain numbers*, as attributes hold them: an optional sign, digits, and possibly a point with
  digits after it. A plain number with a point is a double, one without an integer.

A real text is read to a `RealLiteral`, the exact decimal that was written, and only then rounded.
-/

namespace Cuesheet

/-- What a real text spells. -/
inductive RealLiteral where
  | nan
  | infinite (negative : Bool)
  /-- The decimal `± mantissa · 10 ^ exponent`. -/
  | finite (negative : Bool) (mantissa : Nat) (exponent : Int)
  deriving DecidableEq, Repr

namespace RealLiteral

/-- The nearest double. -/
def toFloat : RealLiteral → Float
  | .nan => 0.0 / 0.0
  | .infinite negative => if negative then -(1.0 / 0.0) else 1.0 / 0.0
  | .finite negative mantissa exponent => Number.Binary.ofDecimal negative mantissa exponent

end RealLiteral

namespace Number

/-! ## Blanks around numbers -/

/-- The blank characters that may stand around a number: all but the information separators. -/
def isPadding (c : Char) : Bool := Text.isBlank c && !(0x1C ≤ c.toNat && c.toNat ≤ 0x1F)

/-- The characters without padding at either end. -/
def trimPadding (cs : List Char) : List Char :=
  ((cs.dropWhile isPadding).reverse.dropWhile isPadding).reverse

/-! ## Runs of digits -/

/-- The values of the decimal digits in front, and what follows them. -/
def spanDigits : List Char → List Nat × List Char
  | [] => ([], [])
  | c :: rest =>
    match Text.decimalValue? c with
    | some d => let (digits, after) := spanDigits rest; (d :: digits, after)
    | none => ([], c :: rest)

theorem length_spanDigits (cs : List Char) :
    (spanDigits cs).1.length + (spanDigits cs).2.length = cs.length := by
  induction cs with
  | nil => rfl
  | cons c rest ih =>
    simp only [spanDigits]
    split
    · simp only [List.length_cons]; omega
    · simp

/-- Drops an underscore that has a digit after it. -/
def dropGroupMark : List Char → List Char
  | '_' :: next :: rest => if Text.isDecimal next then next :: rest else '_' :: next :: rest
  | cs => cs

theorem length_dropGroupMark_le (cs : List Char) : (dropGroupMark cs).length ≤ cs.length := by
  unfold dropGroupMark
  split
  · split <;> simp
  · exact Nat.le_refl _

/-- Digits with single underscores between them: the values, and what follows. An underscore
without a digit after it is left in place. -/
def spanGroupedDigits : List Char → List Nat × List Char
  | [] => ([], [])
  | c :: rest =>
    match Text.decimalValue? c with
    | none => ([], c :: rest)
    | some d => let (digits, after) := spanGroupedDigits (dropGroupMark rest); (d :: digits, after)
termination_by cs => cs.length
decreasing_by
  have := length_dropGroupMark_le rest
  simp only [List.length_cons]
  omega

/-- An optional sign: whether it is a minus, and what follows. -/
def spanSign : List Char → Bool × List Char
  | '-' :: rest => (true, rest)
  | '+' :: rest => (false, rest)
  | cs => (false, cs)

/-! ## Real texts -/

/-- The exponent part of a real text: nothing, or `e`, an optional sign and digits, to the end. -/
def exponentPart? : List Char → Option Int
  | [] => some 0
  | c :: rest =>
    if c == 'e' || c == 'E' then
      let (negative, rest) := spanSign rest
      match spanGroupedDigits rest with
      | ([], _) => none
      | (digits, []) =>
        let e : Int := Text.ofDigits digits
        some (if negative then -e else e)
      | _ => none
    else none

/-- The unsigned real text of digits: digits, a point and digits of which one side may be missing,
and an exponent. -/
def unsignedReal? (negative : Bool) (cs : List Char) : Option RealLiteral :=
  let (whole, rest) := spanGroupedDigits cs
  let (places, rest) :=
    match rest with
    | '.' :: rest => spanGroupedDigits rest
    | rest => ([], rest)
  if whole.isEmpty && places.isEmpty then none
  else
    (exponentPart? rest).map fun e =>
      .finite negative (Text.ofDigits (whole ++ places)) (e - places.length)

def smallLetters (cs : List Char) : List Char := cs.map Char.toLower

end Number

def RealLiteral.ofText? (s : String) : Option RealLiteral :=
  let (negative, cs) := Number.spanSign (Number.trimPadding s.toList)
  let word := Number.smallLetters cs
  if word == "inf".toList || word == "infinity".toList then some (.infinite negative)
  else if word == "nan".toList then some .nan
  else Number.unsignedReal? negative cs

namespace Number

/-! ## Whole texts -/

/-- The integer a run of digits spells, if there are not too many of them. -/
def ofDigits (negative : Bool) (digits : List Nat) : Except ArithFault Int :=
  if ArithFault.digitLimit < digits.length then .error (.tooManyDigits digits.length)
  else
    let n : Int := Text.ofDigits digits
    .ok (if negative then -n else n)

/-- Reads a whole text. -/
def whole? (s : String) : Option Int :=
  let (negative, cs) := spanSign (trimPadding s.toList)
  match spanGroupedDigits cs with
  | ([], _) => none
  | (digits, []) => (ofDigits negative digits).toOption
  | _ => none

/-! ## Plain numbers -/

/-- What may follow a plain number: nothing, or one line end. -/
def atPlainEnd (cs : List Char) : Bool := cs == [] || cs == ['\n']

/-- Reads a plain number; `none` for every other text. -/
def plain? (s : String) : Except ArithFault (Option Number) :=
  let (negative, cs) := spanSign s.toList
  let (whole, rest) := spanDigits cs
  if whole.isEmpty then .ok none
  else if atPlainEnd rest then (ofDigits negative whole).map fun n => some (.int n)
  else
    match rest with
    | '.' :: rest =>
      let (places, rest) := spanDigits rest
      if places.isEmpty || !atPlainEnd rest then .ok none
      else
        let literal : RealLiteral :=
          .finite negative (Text.ofDigits (whole ++ places)) (-places.length)
        .ok (some (.real literal.toFloat))
    | _ => .ok none

/-- The plain number of an attribute that may be absent. -/
def ofAttribute? : Option String → Except ArithFault (Option Number)
  | none => .ok none
  | some s => plain? s

end Number

end Cuesheet
