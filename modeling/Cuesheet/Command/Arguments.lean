import Cuesheet.Data.Entries
import Cuesheet.Text.Digit

/-!
# Command line arguments

An argument that begins with a dash is an option, unless it is a single dash, a negative number or
holds a blank; after two dashes alone nothing is an option any more. A long option may be cut
short as long as only one option begins that way, and may hold its value after an equals sign; a
short one may hold its value, or further short options, right after its letter.

Arguments are first sorted into these kinds, and then read from left to right.
-/

namespace Cuesheet

inductive OptionKind where
  | help
  | flag
  | value
  deriving DecidableEq, Repr

/-- An option: its spellings, the last of which names it. -/
structure OptionRule where
  spellings : List String
  kind : OptionKind
  deriving DecidableEq, Repr

def OptionRule.name (rule : OptionRule) : String := rule.spellings.getLast?.getD ""

/-- The option that every command has. -/
def helpRule : OptionRule := ⟨["-h", "--help"], .help⟩

/-- Why a command line is not run. -/
inductive Halt where
  /-- Help was asked for. -/
  | help
  /-- The command line is wrong. -/
  | usage
  deriving DecidableEq, Repr

/-! ## Kinds of arguments -/

inductive Argument where
  | plain (text : String)
  /-- The two dashes that end the options. -/
  | divider
  /-- A known option, with the value behind an equals sign. -/
  | known (rule : OptionRule) (inline : Option String)
  /-- A known option of one letter, with what is written right onto it. -/
  | cluster (rule : OptionRule) (letters : List Char)
  | unknown (text : String)
  deriving DecidableEq, Repr

namespace Argument

/-- Whether characters are a negative number: digits, or a point with digits after it, behind a
dash; one line end may follow. -/
def isNegativeNumber : List Char → Bool
  | '-' :: cs =>
    let rest := cs.dropWhile Text.isDecimal
    let atEnd (cs : List Char) : Bool := cs == [] || cs == ['\n']
    if atEnd rest then rest.length < cs.length
    else
      match rest with
      | '.' :: places =>
        let rest := places.dropWhile Text.isDecimal
        atEnd rest && rest.length < places.length
      | _ => false
  | _ => false

/-- Splits at the first equals sign. -/
def splitValue (cs : List Char) : String × Option String :=
  match cs.span (· != '=') with
  | (front, _ :: value) => (String.ofList front, some (String.ofList value))
  | (front, []) => (String.ofList front, none)

def exactName? (rules : List OptionRule) (spelling : String) : Option OptionRule :=
  rules.find? fun rule => rule.spellings.contains spelling

def spellings (rules : List OptionRule) : List (OptionRule × List Char) :=
  rules.flatMap fun rule => rule.spellings.map fun spelling => (rule, spelling.toList)

/-- The known options that an argument may be short for. -/
def candidates (rules : List OptionRule) (cs : List Char) : List Argument :=
  match cs with
  | '-' :: '-' :: _ =>
    let (front, value) := splitValue cs
    (spellings rules).filterMap fun (rule, spelling) =>
      if front.toList.isPrefixOf spelling then some (.known rule value) else none
  | '-' :: c :: letters =>
    (spellings rules).filterMap fun (rule, spelling) =>
      if spelling == ['-', c] then some (.cluster rule letters)
      else if cs.isPrefixOf spelling then some (.known rule none)
      else none
  | _ => []

/-- The kind of an argument in front of the divider. -/
def classify (rules : List OptionRule) (s : String) : Except Halt Argument :=
  let cs := s.toList
  if cs.head? != some '-' then .ok (.plain s)
  else
    match exactName? rules s with
    | some rule => .ok (.known rule none)
    | none =>
      if cs.length = 1 then .ok (.plain s)
      else
        let (front, value) := splitValue cs
        match value.bind fun _ => exactName? rules front with
        | some rule => .ok (.known rule value)
        | none =>
          match candidates rules cs with
          | [argument] => .ok argument
          | _ :: _ :: _ => .error .usage
          | [] =>
            if isNegativeNumber cs || cs.contains ' ' then .ok (.plain s) else .ok (.unknown s)

def classifyAll (rules : List OptionRule) : List String → Except Halt (List Argument)
  | [] => .ok []
  | s :: rest =>
    if s == "--" then .ok (.divider :: rest.map .plain)
    else
      match classify rules s, classifyAll rules rest with
      | .error halt, _ => .error halt
      | _, .error halt => .error halt
      | .ok argument, .ok arguments => .ok (argument :: arguments)

end Argument

/-! ## Reading -/

/-- What was read from a command line. -/
structure Parsed where
  flags : List String := []
  /-- The values of options, in the order in which they were given. -/
  values : List (String × String) := []
  positionals : List String := []
  /-- What is left over. -/
  extras : List String := []
  deriving DecidableEq, Repr

namespace Parsed

def has (p : Parsed) (name : String) : Bool := p.flags.contains name

def value? (p : Parsed) (name : String) : Option String :=
  (p.values.reverse.find? fun entry => entry.1 == name).map Prod.snd

def allValues (p : Parsed) (name : String) : List String :=
  p.values.filterMap fun entry => if entry.1 == name then some entry.2 else none

/-- Notes a flag; help ends the reading. -/
def setFlag (p : Parsed) (rule : OptionRule) : Except Halt Parsed :=
  match rule.kind with
  | .help => .error .help
  | .flag => .ok { p with flags := p.flags ++ [rule.name] }
  | .value => .error .usage

def setValue (p : Parsed) (rule : OptionRule) (value : String) : Parsed :=
  { p with values := p.values ++ [(rule.name, value)] }

/-- Notes an option with the value behind an equals sign. -/
def setInline (p : Parsed) (rule : OptionRule) (value : String) : Except Halt Parsed :=
  match rule.kind with
  | .value => .ok (p.setValue rule value)
  | _ => .error .usage

def leave (p : Parsed) (s : String) : Parsed := { p with extras := p.extras ++ [s] }

/-- Reads an option of one letter and what is written onto it: its value, or further options of one
letter. Letters that begin with none are left over. -/
def cluster (rules : List OptionRule) (p : Parsed) (rule : OptionRule) :
    List Char → Except Halt Parsed
  | [] => p.setFlag rule
  | c :: rest =>
    if rule.kind = .value then .ok (p.setValue rule (String.ofList (c :: rest)))
    else if c == '-' then .error .usage
    else
      match Argument.exactName? rules (String.ofList ['-', c]), rest with
      | none, _ => (p.leave (String.ofList ('-' :: c :: rest))).setFlag rule
      | some next, '=' :: value =>
        match p.setInline next (String.ofList value) with
        | .error halt => .error halt
        | .ok p => p.setFlag rule
      | some next, rest =>
        match p.setFlag rule with
        | .error halt =>
          -- Help counts only if what is written onto it is right.
          match cluster rules p next rest with
          | .error .usage => .error .usage
          | _ => .error halt
        | .ok p => cluster rules p next rest

/-- Whether a plain argument is still wanted. -/
def wants (p : Parsed) (wanted : Nat) : Bool := p.positionals.length < wanted

/-- Takes a plain argument that is wanted. -/
def take (p : Parsed) (s : String) : Parsed := { p with positionals := p.positionals ++ [s] }

/-- Reads arguments. At most `wanted` plain ones are taken, the others are left over. The divider
disappears beside a plain argument that is taken. -/
def read (rules : List OptionRule) (wanted : Nat) (p : Parsed) :
    List Argument → Except Halt Parsed
  | [] => .ok p
  | .plain s :: .divider :: rest =>
    read rules wanted (if p.wants wanted then p.take s else (p.leave s).leave "--") rest
  | .plain s :: rest => read rules wanted (if p.wants wanted then p.take s else p.leave s) rest
  | .divider :: .plain s :: rest =>
    read rules wanted (if p.wants wanted then p.take s else (p.leave "--").leave s) rest
  | .divider :: rest => read rules wanted (p.leave "--") rest
  | .unknown s :: rest => read rules wanted (p.leave s) rest
  | .cluster rule letters :: rest =>
    match cluster rules p rule letters with
    | .error halt => .error halt
    | .ok p => read rules wanted p rest
  | .known rule (some value) :: rest =>
    match p.setInline rule value with
    | .error halt => .error halt
    | .ok p => read rules wanted p rest
  | .known rule none :: .plain value :: rest =>
    if rule.kind = .value then read rules wanted (p.setValue rule value) rest
    else
      match p.setFlag rule with
      | .error halt => .error halt
      | .ok p => read rules wanted p (.plain value :: rest)
  | .known rule none :: rest =>
    match p.setFlag rule with
    | .error halt => .error halt
    | .ok p => read rules wanted p rest

/-- Reads a command line with so many plain arguments. -/
def ofStrings (rules : List OptionRule) (wanted : Nat) (args : List String) :
    Except Halt Parsed :=
  match Argument.classifyAll rules args with
  | .error halt => .error halt
  | .ok arguments => read rules wanted {} arguments

end Parsed

end Cuesheet
