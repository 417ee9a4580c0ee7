import Cuesheet.Number.Basic
import Cuesheet.Number.Shortest

/-!
# How numbers are written

Three notations: in full (the fewest digits that read back, positional from `0.0001` up to below
`10 ^ 16`), with a fixed number of places, and general with six significant digits. All three
start from the exact value.
-/

namespace Cuesheet.Number

def digitChars (digits : List Nat) : List Char := digits.map fun d => Char.ofNat (48 + d)

/-- The decimal digits of a natural number; zero is `0`. -/
def natChars (n : Nat) : List Char :=
  match Decimal.digitsOf n with
  | [] => ['0']
  | digits => digitChars digits

/-- An integer in decimal notation. -/
def intText (n : Int) : String :=
  String.ofList (if n < 0 then '-' :: natChars n.natAbs else natChars n.natAbs)

/-- An exponent: a sign and at least two digits. -/
def exponentChars (e : Int) : List Char :=
  let digits := natChars e.natAbs
  'e' :: (if e < 0 then '-' else '+') :: (if digits.length < 2 then '0' :: digits else digits)

/-- Digits with the point after the digit of exponent zero, zeros filling both sides as needed.
Nothing follows the integer part when no digits are left. -/
def positionalChars (digits : List Nat) (exponent : Int) : List Char × List Char :=
  if exponent < 0 then (['0'], List.replicate (-exponent - 1).toNat '0' ++ digitChars digits)
  else
    let whole := (exponent + 1).toNat
    (digitChars (digits.take whole) ++ List.replicate (whole - digits.length) '0',
      digitChars (digits.drop whole))

/-- Scientific notation: one digit before the point. -/
def scientificChars (digits : List Nat) (exponent : Int) : List Char :=
  match digitChars digits with
  | [] => '0' :: exponentChars exponent
  | [d] => d :: exponentChars exponent
  | d :: rest => d :: '.' :: rest ++ exponentChars exponent

/-- The unsigned text of a finite double in full. -/
def fullChars (m : Nat) (q : Int) : List Char :=
  if m = 0 then ['0', '.', '0']
  else
    let decimal := Binary.shortest m q
    if -4 ≤ decimal.exponent && decimal.exponent < 16 then
      match positionalChars decimal.digits decimal.exponent with
      | (whole, []) => whole ++ ['.', '0']
      | (whole, places) => whole ++ '.' :: places
    else scientificChars decimal.digits decimal.exponent

/-- A sign in front of unsigned characters. -/
def signed (negative : Bool) (cs : List Char) : String :=
  String.ofList (if negative then '-' :: cs else cs)

/-- A double in full: the fewest digits that read back. -/
def floatText (x : Float) : String :=
  match Binary.ofFloat x with
  | .nan => "nan"
  | .infinite negative => if negative then "-inf" else "inf"
  | .finite negative m q => signed negative (fullChars m q)

def text : Number → String
  | .int n => intText n
  | .real x => floatText x

/-! ## Fixed places -/

/-- Digits padded with zeros in front to at least `width`. -/
def padZeros (width : Nat) (digits : List Char) : List Char :=
  List.replicate (width - digits.length) '0' ++ digits

/-- The double with a fixed number of places, the exact value rounded and a tie to the even
neighbour. -/
def fixedText (places : Nat) (x : Float) : String :=
  match Binary.ofFloat x with
  | .nan => "nan"
  | .infinite negative => if negative then "-inf" else "inf"
  | .finite negative m q =>
    let n :=
      if 0 ≤ q then m * twoTo q.toNat * tenTo places
      else Binary.roundDiv (m * tenTo places) (twoTo (-q).toNat)
    let digits := padZeros (places + 1) (natChars n)
    let whole := digits.length - places
    signed negative (digits.take whole
      ++ (if places = 0 then [] else '.' :: digits.drop whole))

/-! ## General notation -/

def generalDigits : Nat := 6

/-- A positive quotient rounded to six significant digits, a tie to the even neighbour. -/
def generalDecimal (num den : Nat) : Decimal :=
  let k := Decimal.leadingExponent num den - (generalDigits - 1 : Int)
  let (num', den') := Decimal.scaled num den k
  Decimal.ofScaled (Binary.roundDiv num' den') k

/-- The double in general notation: six significant digits without zeros at the end, positional
from `0.0001` up to below `10 ^ 6`. -/
def generalText (x : Float) : String :=
  match Binary.ofFloat x with
  | .nan => "nan"
  | .infinite negative => if negative then "-inf" else "inf"
  | .finite negative m q =>
    if m = 0 then signed negative ['0']
    else
      let decimal :=
        if 0 ≤ q then generalDecimal (m * twoTo q.toNat) 1 else generalDecimal m (twoTo (-q).toNat)
      let cs :=
        if -4 ≤ decimal.exponent && decimal.exponent < generalDigits then
          match positionalChars decimal.digits decimal.exponent with
          | (whole, []) => whole
          | (whole, places) => whole ++ '.' :: places
        else scientificChars decimal.digits decimal.exponent
      signed negative cs

end Cuesheet.Number
