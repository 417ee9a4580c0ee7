import Cuesheet.Number.Literal
import Cuesheet.Number.Notation
import Cuesheet.Text.Quoted

/-!
# Tokens of time formulas

A time formula is written with numbers (each with an optional unit), names, the four operators,
parentheses, dots and commas. A lexeme is a token together with the characters it was read from.
-/

namespace Cuesheet

/-- What a number in a formula counts. -/
inductive TimeUnit where
  | milliseconds
  | frames
  | seconds
  deriving DecidableEq, Repr

namespace TimeUnit

def text : TimeUnit → String
  | milliseconds => "ms"
  | frames => "f"
  | seconds => "s"

/-- The units in the order in which a suffix is compared with them. -/
def all : List TimeUnit := [milliseconds, frames, seconds]

end TimeUnit

inductive Operator where
  | add
  | sub
  | mul
  | div
  deriving DecidableEq, Repr

namespace Operator

def char : Operator → Char
  | add => '+'
  | sub => '-'
  | mul => '*'
  | div => '/'

def text (o : Operator) : String := String.singleton o.char

end Operator

inductive Token where
  | number (value : RealLiteral) (unit : Option TimeUnit)
  | name (id : String)
  | op (o : Operator)
  | openParen
  | closeParen
  | dot
  | comma
  deriving DecidableEq, Repr

namespace Token

/-- Whether a property can hang off what this token ends: a name, or a closing parenthesis. -/
def takesProperty : Token → Bool
  | name _ => true
  | closeParen => true
  | _ => false

/-- How a token is shown in a message. A number is shown with its unit. -/
def text : Token → String
  | number value unit =>
    let unitText := match unit with
      | none => "None"
      | some u => Text.quoted u.text
    "(" ++ Number.floatText value.toFloat ++ ", " ++ unitText ++ ")"
  | name id => id
  | op o => o.text
  | openParen => "("
  | closeParen => ")"
  | dot => "."
  | comma => ","

end Token

/-- A token and the characters it was read from. -/
structure Lexeme where
  token : Token
  span : List Char
  deriving DecidableEq, Repr

end Cuesheet
