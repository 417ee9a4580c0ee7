import Cuesheet.Expr.Syntax

/-!
# From tokens to formulas

The grammar, from the loosest binding to the tightest:

    expression := term (('+' | '-') term)*
    term       := unary (('*' | '/') unary)*
    unary      := ('+' | '-') unary | primary
    primary    := number | name ('(' [expression (',' expression)*] ')')? ('.' name)*
                | '(' expression ')'

Every part reads a formula off the front of the tokens and returns the rest with the proof that
it is shorter, which is what makes the descent end.
-/

namespace Cuesheet

/-- Why a sequence of tokens is not a formula. -/
inductive SyntaxFault where
  | unexpectedEnd
  | expectedClose
  | unexpectedToken (t : Token)
  | expectedProperty
  deriving DecidableEq, Repr

def SyntaxFault.message : SyntaxFault → String
  | .unexpectedEnd => "Unexpected end of expression"
  | .expectedClose => "Expected closing ')'"
  | .unexpectedToken t => "Unexpected token '" ++ t.text ++ "'"
  | .expectedProperty => "Expected property name after '.'"

namespace Expr

/-- What is read off the front of `ts`, with a rest that is strictly shorter. -/
abbrev Parsed (α : Type) (ts : List Token) :=
  Except SyntaxFault (α × { rest : List Token // rest.length < ts.length })

/-- What is read off the front of `ts`, with a rest that is no longer. -/
abbrev Continued (α : Type) (ts : List Token) :=
  Except SyntaxFault (α × { rest : List Token // rest.length ≤ ts.length })

/-- Reads a closing parenthesis. -/
def closing : (ts : List Token) → Except SyntaxFault { rest : List Token // rest.length < ts.length }
  | .closeParen :: rest => .ok ⟨rest, by simp⟩
  | _ => .error .expectedClose

/-- Reads a comma, if there is one. -/
def comma? : (ts : List Token) → Option { rest : List Token // rest.length < ts.length }
  | .comma :: rest => some ⟨rest, by simp⟩
  | _ => none

/-- Reads the properties that hang off a formula. -/
def properties (target : Expr) : (ts : List Token) → Continued Expr ts
  | .dot :: .name id :: rest =>
    match properties (.property target id) rest with
    | .error fault => .error fault
    | .ok (e, ⟨rest', h⟩) => .ok (e, ⟨rest', by simp only [List.length_cons]; omega⟩)
  | .dot :: _ => .error .expectedProperty
  | ts => .ok (target, ⟨ts, Nat.le_refl _⟩)

mutual

/-- Reads an expression: terms joined by `+` and `-`, the left ones first. -/
def expression (ts : List Token) : Parsed Expr ts :=
  match term ts with
  | .error fault => .error fault
  | .ok (left, ⟨rest, h⟩) =>
    match moreTerms left rest with
    | .error fault => .error fault
    | .ok (e, ⟨rest', h'⟩) => .ok (e, ⟨rest', by omega⟩)
termination_by 7 * ts.length + 4

/-- Reads the terms added to or subtracted from `left`. -/
def moreTerms (left : Expr) (ts : List Token) : Continued Expr ts :=
  match ts with
  | .op o :: tail =>
    if o = .add ∨ o = .sub then
      match term tail with
      | .error fault => .error fault
      | .ok (right, ⟨rest, h⟩) =>
        match moreTerms (.binary o left right) rest with
        | .error fault => .error fault
        | .ok (e, ⟨rest', h'⟩) => .ok (e, ⟨rest', by simp only [List.length_cons]; omega⟩)
    else .ok (left, ⟨.op o :: tail, Nat.le_refl _⟩)
  | ts => .ok (left, ⟨ts, Nat.le_refl _⟩)
termination_by 7 * ts.length + 0

/-- Reads a term: signed formulas joined by `*` and `/`, the left ones first. -/
def term (ts : List Token) : Parsed Expr ts :=
  match unary ts with
  | .error fault => .error fault
  | .ok (left, ⟨rest, h⟩) =>
    match moreFactors left rest with
    | .error fault => .error fault
    | .ok (e, ⟨rest', h'⟩) => .ok (e, ⟨rest', by omega⟩)
termination_by 7 * ts.length + 3

/-- Reads the factors that multiply or divide `left`. -/
def moreFactors (left : Expr) (ts : List Token) : Continued Expr ts :=
  match ts with
  | .op o :: tail =>
    if o = .mul ∨ o = .div then
      match unary tail with
      | .error fault => .error fault
      | .ok (right, ⟨rest, h⟩) =>
        match moreFactors (.binary o left right) rest with
        | .error fault => .error fault
        | .ok (e, ⟨rest', h'⟩) => .ok (e, ⟨rest', by simp only [List.length_cons]; omega⟩)
    else .ok (left, ⟨.op o :: tail, Nat.le_refl _⟩)
  | ts => .ok (left, ⟨ts, Nat.le_refl _⟩)
termination_by 7 * ts.length + 0

/-- Reads a formula with any number of signs in front. -/
def unary (ts : List Token) : Parsed Expr ts :=
  match ts with
  | .op o :: tail =>
    if o = .add ∨ o = .sub then
      match unary tail with
      | .error fault => .error fault
      | .ok (e, ⟨rest, h⟩) =>
        .ok (.signed (o = .sub) e, ⟨rest, by simp only [List.length_cons]; omega⟩)
    else .error (.unexpectedToken (.op o))
  | ts => primary ts
termination_by 7 * ts.length + 2

/-- Reads a number, a name with its call and properties, or a formula in parentheses. -/
def primary (ts : List Token) : Parsed Expr ts :=
  match ts with
  | [] => .error .unexpectedEnd
  | .number value unit :: rest => .ok (.number value unit, ⟨rest, by simp⟩)
  | .openParen :: tail =>
    match expression tail with
    | .error fault => .error fault
    | .ok (e, ⟨rest, h⟩) =>
      match closing rest with
      | .error fault => .error fault
      | .ok ⟨rest', h'⟩ => .ok (e, ⟨rest', by simp only [List.length_cons]; omega⟩)
  | .name id :: .openParen :: tail =>
    match arguments tail with
    | .error fault => .error fault
    | .ok (args, ⟨rest, h⟩) =>
      match closing rest with
      | .error fault => .error fault
      | .ok ⟨rest', h'⟩ =>
        match properties (.call id args) rest' with
        | .error fault => .error fault
        | .ok (e, ⟨rest'', h''⟩) => .ok (e, ⟨rest'', by simp only [List.length_cons]; omega⟩)
  | .name id :: tail =>
    match properties (.name id) tail with
    | .error fault => .error fault
    | .ok (e, ⟨rest, h⟩) => .ok (e, ⟨rest, by simp only [List.length_cons]; omega⟩)
  | t :: _ => .error (.unexpectedToken t)
termination_by 7 * ts.length + 1

/-- Reads the arguments of a call up to the closing parenthesis. -/
def arguments (ts : List Token) : Continued (List Expr) ts :=
  match ts with
  | .closeParen :: rest => .ok ([], ⟨.closeParen :: rest, Nat.le_refl _⟩)
  | ts =>
    match someArguments ts with
    | .error fault => .error fault
    | .ok (args, ⟨rest, h⟩) => .ok (args, ⟨rest, Nat.le_of_lt h⟩)
termination_by 7 * ts.length + 6

/-- Reads one or more expressions with commas between them. -/
def someArguments (ts : List Token) : Parsed (List Expr) ts :=
  match expression ts with
  | .error fault => .error fault
  | .ok (e, ⟨rest, h⟩) =>
    match comma? rest with
    | none => .ok ([e], ⟨rest, h⟩)
    | some ⟨after, h'⟩ =>
      match someArguments after with
      | .error fault => .error fault
      | .ok (es, ⟨rest', h''⟩) => .ok (e :: es, ⟨rest', by omega⟩)
termination_by 7 * ts.length + 5

end

/-- The formula that a sequence of tokens spells. -/
def ofTokens (ts : List Token) : Except SyntaxFault Expr :=
  match expression ts with
  | .error fault => .error fault
  | .ok (e, ⟨[], _⟩) => .ok e
  | .ok (_, ⟨t :: _, _⟩) => .error (.unexpectedToken t)

end Expr

end Cuesheet
