import Cuesheet.Stage.Reflecting

/-!
# Hosts on the stage

A load that counts when its fetch has ended takes the player of its host off its timeline and
mounts a new one in its place. What goes wrong with the markup is reported to the host and leaves
it without a player.
-/

namespace Cuesheet.Stage

variable {T C W : Type} [TimeScalar T]

/-- What a load gives in the end. -/
inductive LoadResult where
  | mounted (player : Nat)
  | nothing
  | cancelled
  deriving DecidableEq, Repr

omit [TimeScalar T] in
def addHost (options : PlayerOptions C) : Action T C W Nat := do
  let key := (← get).hosts.length
  modify fun s => { s with hosts := s.hosts ++ [{ options }] }
  return key

omit [TimeScalar T] in
def updateLoads (host : Nat) (f : Loads → Loads) : Action T C W Unit :=
  modify fun s => s.modifyHost host fun h => { h with loads := f h.loads }

omit [TimeScalar T] in
/-- Begins a load, which supersedes the one before: its number. -/
def beginLoad (host : Nat) : Action T C W Nat := do
  match (← get).hosts[host]? with
  | none => return 0
  | some h =>
    updateLoads host fun loads => loads.start.2
    return h.loads.start.1

/-- Takes the player of a host off its timeline. -/
def unmountHost [DecidableEq C] (host : Nat) : Action T C W Unit := do
  match (← get).hosts[host]? with
  | none => pure ()
  | some h =>
    match h.player with
    | none => pure ()
    | some key =>
      unmount key
      modify fun s => s.modifyHost host fun h => { h with player := none }

/-- Cancels the load that counts and takes the player of a host off its timeline. -/
def closeHost [DecidableEq C] (host : Nat) : Action T C W Unit := do
  updateLoads host Loads.close
  unmountHost host

/-- Reports what went wrong with a load. -/
def report (react : React T C W) (h : Host C) (message : String) : Action T C W Unit :=
  tell react h.options.onError (.error (some message))

/-- Shows the composition in a text. -/
def display [DecidableEq C] (react : React T C W) (host : Nat) (h : Host C) (text : String) :
    Action T C W LoadResult := do
  unmountHost host
  match (Composition.ofText text : Except CompositionFault (Composition T)) with
  | .error fault =>
    if fault.isReported then
      report react h fault.message
      return .nothing
    else throw (.composition fault)
  | .ok composition =>
    let key ← addPlayer composition h.options
    mount react key
    modify fun s => s.modifyHost host fun h => { h with player := some key }
    return .mounted key

/-- Goes on with a load whose fetch has ended. -/
def resumeLoad [DecidableEq C] (react : React T C W) (host load : Nat) :
    Action T C W LoadResult := do
  match (← get).hosts[host]? with
  | none => return .nothing
  | some h =>
    match h.loads.continuation load with
    | .waiting => return .nothing
    | .superseded => return .nothing
    | .cancelled => return .cancelled
    | .broken fault => throw (.file fault)
    | .report message =>
      report react h message
      return .nothing
    | .display text => display react host h text

/-- Loads a source whose fetch ends before anything else happens. -/
def load [DecidableEq C] (react : React T C W) (host : Nat) (fetched : Fetched) :
    Action T C W LoadResult := do
  let load ← beginLoad host
  updateLoads host fun loads => loads.settle load fetched
  resumeLoad react host load

end Cuesheet.Stage
