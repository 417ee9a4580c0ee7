import Cuesheet.Command.Patch
import Cuesheet.Command.Play
import Cuesheet.Command.Resolve

/-!
# Command lines

The first argument that is no option names the command. Options in front of it are passed on to
the command, all but the one for help.
-/

namespace Cuesheet.Command

inductive Name where
  | resolve
  | play
  | patch
  deriving DecidableEq, Repr

def Name.ofString? : String → Option Name
  | "resolve" => some .resolve
  | "play" => some .play
  | "patch" => some .patch
  | _ => none

/-- A command line: what to run, and the arguments for it. -/
inductive Invoked where
  | nothing
  | command (name : Name) (args : List String)
  deriving DecidableEq, Repr

/-- The arguments for a command, `passed` being those in front of it. Asking for help comes before
anything that may be wrong with them. -/
def invoke (passed : List String) (name : String) (args : List String) : Except Halt Invoked :=
  match Name.ofString? name with
  | none => .error .usage
  | some name =>
    match Parsed.ofStrings [helpRule] 0 args with
    | .error halt => .error halt
    | .ok p => .ok (.command name (passed ++ p.extras))

/-- Finds the command among arguments whose kinds are known. -/
def find (passed : List String) : List (Argument × String) → Except Halt Invoked
  | [] => .ok .nothing
  | (.plain name, _) :: rest => invoke passed name (rest.map Prod.snd)
  | (.divider, _) :: [] => .ok .nothing
  | (.divider, _) :: _ => .error .usage
  | (.unknown s, _) :: rest => find (passed ++ [s]) rest
  | (argument, _) :: rest =>
    match ({} : Parsed).read [helpRule] 0 [argument] with
    | .error halt => .error halt
    | .ok _ => find passed rest

/-- Reads a command line. -/
def Invoked.ofStrings (args : List String) : Except Halt Invoked :=
  match Argument.classifyAll [helpRule] args with
  | .error halt => .error halt
  | .ok arguments => find [] (arguments.zip args)

variable {m : Type → Type} [Monad m]

/-- Options that were read, or the end of the command. -/
def orEnd {α : Type} : Except Halt α → CommandM m α
  | .ok a => pure a
  | .error halt => throw (.ofHalt halt)

def run (sys : System m) (args : List String) : CommandM m Unit := do
  match ← orEnd (Invoked.ofStrings args) with
  | .nothing => throw (.exit 1)
  | .command .resolve args => resolve sys (← orEnd (ResolveOptions.ofStrings args))
  | .command .play args => play sys (← orEnd (PlayOptions.ofStrings args))
  | .command .patch args => patch sys (← orEnd (PatchOptions.ofStrings args))

end Cuesheet.Command
