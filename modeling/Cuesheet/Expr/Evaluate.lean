import Cuesheet.Expr.Known
import Cuesheet.Expr.Lexer
import Cuesheet.Expr.Parser
import Cuesheet.Text.Blank

/-!
# The value of a formula

A formula evaluates to a number of seconds, stops because a time it refers to is not known yet,
is wrong (an unknown name, a wrong number of arguments, a division by zero), or fails in the
arithmetic. Operands are evaluated from left to right and the first stop ends the evaluation.

A wrong formula is reported together with its text: `TimeFault` covers its spelling, its grammar
and its evaluation.
-/

namespace Cuesheet

/-- Why an evaluation has no value. -/
inductive Stop (ε : Type) where
  /-- The time a reference stands for is not known yet. -/
  | waiting (r : Reference)
  /-- The formula is wrong whatever becomes known. -/
  | wrong (e : ε)
  /-- The arithmetic has no result. -/
  | fault (f : ArithFault)
  deriving Repr

/-- Changes what is said about a wrong formula. -/
def Stop.mapWrong {ε δ : Type} (f : ε → δ) : Stop ε → Stop δ
  | .waiting r => .waiting r
  | .wrong e => .wrong (f e)
  | .fault a => .fault a

/-- Why a formula is wrong. -/
inductive EvalFault where
  | identifierArgument (function : String)
  | tooFewArguments (function : String)
  | clampArguments
  | snapArguments
  | unknownFunction (function : String)
  | unsupportedProperty (name : String)
  | bareTimeline
  | unknownName (id : String)
  | divisionByZero
  deriving DecidableEq, Repr

def EvalFault.message : EvalFault → String
  | .identifierArgument function => function ++ "() requires an identifier argument"
  | .tooFewArguments function => function ++ "() requires at least 2 arguments"
  | .clampArguments => "clamp() requires 3 arguments"
  | .snapArguments => "snap() requires 2 arguments"
  | .unknownFunction function => "Unknown function '" ++ function ++ "'"
  | .unsupportedProperty name => "Unsupported property access '." ++ name ++ "'"
  | .bareTimeline => "timeline requires a property (e.g. timeline.start)"
  | .unknownName id => "Unknown identifier '" ++ id ++ "'"
  | .divisionByZero => "Division by zero"

namespace Expr

variable {T : Type} [TimeScalar T]

/-! ## The parts of a formula -/

def seconds (fps : Number) (value : RealLiteral) (unit : Option TimeUnit) :
    Except (Stop EvalFault) T :=
  let v : T := TimeScalar.ofLiteral value
  match unit with
  | some .frames =>
    match TimeScalar.ofNumber fps with
    | .error f => .error (.fault f)
    | .ok rate =>
      if TimeScalar.beq rate TimeScalar.zero then .error (.fault .zeroDivision)
      else .ok (TimeScalar.div v rate)
  | some .milliseconds => .ok (TimeScalar.div v (TimeScalar.ofInt 1000))
  | _ => .ok v

/-- The id in the argument of a reference such as `scene(id)`. -/
def referenceId (function : String) : List Expr → Except (Stop EvalFault) String
  | [.name id] => .ok id
  | _ => .error (.wrong (.identifierArgument function))

/-- The time a reference stands for. -/
def refer (known : Known T) (r : Reference) : Except (Stop EvalFault) T :=
  match known.lookup r with
  | some t => .ok t
  | none => .error (.waiting r)

/-- Two values joined by an operator. -/
def combine (op : Operator) (a b : T) : Except (Stop EvalFault) T :=
  match op with
  | .add => .ok (TimeScalar.add a b)
  | .sub => .ok (TimeScalar.sub a b)
  | .mul => .ok (TimeScalar.mul a b)
  | .div =>
    if TimeScalar.beq b TimeScalar.zero then .error (.wrong .divisionByZero)
    else .ok (TimeScalar.div a b)

/-- The multiple of `grid` nearest to `value`, a tie going up; `value` itself without a grid. -/
def snap (value grid : T) : Except (Stop EvalFault) T :=
  if TimeScalar.beq grid TimeScalar.zero then .ok value
  else
    let half : T := TimeScalar.ofLiteral (.finite false 5 (-1))
    match TimeScalar.floor (TimeScalar.add (TimeScalar.div value grid) half) with
    | .error f => .error (.fault f)
    | .ok n => .ok (TimeScalar.mul (TimeScalar.ofInt n) grid)

/-- The functions that compute with the values of their arguments. -/
inductive Function where
  | min
  | max
  | clamp
  | snap
  deriving DecidableEq, Repr

namespace Function

def ofName? (name : String) : Option Function :=
  if name == "min" then some .min
  else if name == "max" then some .max
  else if name == "clamp" then some .clamp
  else if name == "snap" then some .snap
  else none

/-- What is wrong with a number of arguments, if anything. -/
def arityFault? (f : Function) (count : Nat) : Option EvalFault :=
  match f with
  | .min => if count < 2 then some (.tooFewArguments "min") else none
  | .max => if count < 2 then some (.tooFewArguments "max") else none
  | .clamp => if count = 3 then none else some .clampArguments
  | .snap => if count = 2 then none else some .snapArguments

def apply (f : Function) (values : List T) : Except (Stop EvalFault) T :=
  match f, values with
  | .min, v :: rest => .ok (rest.foldl TimeScalar.earlier v)
  | .max, v :: rest => .ok (rest.foldl TimeScalar.later v)
  | .clamp, [value, lo, hi] => .ok (TimeScalar.earlier hi (TimeScalar.later lo value))
  | .snap, [value, grid] => Expr.snap value grid
  | _, _ => .error (.wrong .clampArguments)

end Function

/-- The time that a property of a formula stands for. Only siblings, scenes, cues and the
timeline have properties. -/
def propertyValue (known : Known T) (target : Expr) (prop : String) :
    Except (Stop EvalFault) T :=
  match target with
  | .name id =>
    if id == "prev" && prop == "start" then refer known .prevStart
    else if id == "prev" && prop == "end" then refer known .prevEnd
    else if id == "next" && prop == "start" then refer known .nextStart
    else if id == "timeline" && prop == "start" then .ok TimeScalar.zero
    else .error (.wrong (.unsupportedProperty prop))
  | .call function args =>
    if function == "scene" then
      match referenceId function args with
      | .error stop => .error stop
      | .ok id =>
        if prop == "start" then refer known (.sceneStart id)
        else if prop == "end" then refer known (.sceneEnd id)
        else .error (.wrong (.unsupportedProperty prop))
    else if function == "cue" && prop == "start" then
      match referenceId function args with
      | .error stop => .error stop
      | .ok id => refer known (.cueStart id)
    else .error (.wrong (.unsupportedProperty prop))
  | _ => .error (.wrong (.unsupportedProperty prop))

/-! ## Evaluation -/

mutual

/-- The seconds a formula stands for. -/
def evaluate (known : Known T) : Expr → Except (Stop EvalFault) T
  | .number value unit => seconds known.fps value unit
  | .name id => .error (.wrong (if id == "timeline" then .bareTimeline else .unknownName id))
  | .signed negated operand =>
    match evaluate known operand with
    | .error stop => .error stop
    | .ok v => .ok (if negated then TimeScalar.neg v else v)
  | .binary op left right =>
    match evaluate known left with
    | .error stop => .error stop
    | .ok a =>
      match evaluate known right with
      | .error stop => .error stop
      | .ok b => combine op a b
  | .call function args =>
    match Function.ofName? function with
    | some f =>
      match f.arityFault? args.length with
      | some fault => .error (.wrong fault)
      | none =>
        match evaluateAll known args with
        | .error stop => .error stop
        | .ok values => f.apply values
    | none =>
      if function == "scene" then
        match referenceId function args with
        | .error stop => .error stop
        | .ok id => refer known (.scene id)
      else if function == "cue" then
        match referenceId function args with
        | .error stop => .error stop
        | .ok id => refer known (.cue id)
      else .error (.wrong (.unknownFunction function))
  | .property target prop => propertyValue known target prop

/-- The values of some formulas, from left to right. -/
def evaluateAll (known : Known T) : List Expr → Except (Stop EvalFault) (List T)
  | [] => .ok []
  | e :: rest =>
    match evaluate known e with
    | .error stop => .error stop
    | .ok v =>
      match evaluateAll known rest with
      | .error stop => .error stop
      | .ok values => .ok (v :: values)

end

end Expr

/-! ## Formulas as text -/

/-- Why a text is not a time formula with a value. -/
inductive TimeFault where
  | empty
  | lexical (fault : LexFault) (source : String)
  | grammatical (fault : SyntaxFault) (source : String)
  | evaluation (fault : EvalFault) (source : String)
  deriving DecidableEq, Repr

/-- The wording of a fault: what is wrong, and the formula it is wrong in. -/
def TimeFault.message : TimeFault → String
  | .empty => "Empty time expression"
  | .lexical fault source => fault.message ++ within source
  | .grammatical fault source => fault.message ++ within source
  | .evaluation fault source => fault.message ++ within source
where
  /-- Names the formula at the end of a message. -/
  within (source : String) : String := " in time expression '" ++ source ++ "'"

/-- The formula a text spells, blanks at the ends ignored. -/
def Expr.ofText (text : String) : Except TimeFault Expr :=
  let source := Text.trim text
  if source.isEmpty then .error .empty
  else
    match tokenize source with
    | .error fault => .error (.lexical fault source)
    | .ok tokens =>
      match Expr.ofTokens tokens with
      | .error fault => .error (.grammatical fault source)
      | .ok e => .ok e

/-- The seconds that the formula of a text stands for. -/
def evaluateTime {T : Type} [TimeScalar T] (known : Known T) (text : String) :
    Except (Stop TimeFault) T :=
  match Expr.ofText text with
  | .error fault => .error (.wrong fault)
  | .ok e =>
    match e.evaluate known with
    | .error stop => .error (stop.mapWrong fun fault => .evaluation fault (Text.trim text))
    | .ok t => .ok t

end Cuesheet
