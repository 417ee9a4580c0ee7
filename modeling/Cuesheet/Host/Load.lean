import Cuesheet.Host.Fetch
import Cuesheet.Player.Basic

/-!
# Loads of a host

A host shows one player and replaces it with every load. A load first fetches; when its fetch has
ended the load goes on, unless another load or a close came in between: only the load begun last
counts. Loads are numbered in the order in which they begin.
-/

namespace Cuesheet

/-- How far the fetch of a load is. -/
inductive LoadState where
  | pending
  | done (fetched : Fetched)
  | cancelled
  deriving DecidableEq, Repr

/-- The loads of a host and the one that counts. -/
structure Loads where
  states : List LoadState := []
  current : Option Nat := none
  deriving DecidableEq, Repr

namespace Loads

/-- How far a load is. -/
def state? (loads : Loads) (load : Nat) : Option LoadState := loads.states[load]?

def isCurrent (loads : Loads) (load : Nat) : Bool := loads.current == some load

/-- Ends a fetch that is under way by cancelling it. -/
def cancel (loads : Loads) (load : Nat) : Loads :=
  if loads.state? load = some .pending then
    { loads with states := loads.states.set load .cancelled }
  else loads

/-- Ends a fetch that is under way with a result. -/
def settle (loads : Loads) (load : Nat) (fetched : Fetched) : Loads :=
  if loads.state? load = some .pending then
    { loads with states := loads.states.set load (.done fetched) }
  else loads

/-- Cancels the fetch of the load that counts. -/
def cancelCurrent (loads : Loads) : Loads :=
  match loads.current with
  | none => loads
  | some load => loads.cancel load

/-- Begins a load, which supersedes the one before: its number, and the loads. -/
def start (loads : Loads) : Nat × Loads :=
  let loads := loads.cancelCurrent
  let load := loads.states.length
  (load, { states := loads.states ++ [.pending], current := some load })

/-- No load counts any more. -/
def close (loads : Loads) : Loads := { loads.cancelCurrent with current := none }

theorem cancel_current (loads : Loads) (load : Nat) :
    (loads.cancel load).current = loads.current := by
  unfold cancel
  split <;> rfl

theorem close_isCurrent (loads : Loads) (load : Nat) : loads.close.isCurrent load = false := by
  simp [close, isCurrent]

end Loads

inductive Continuation where
  /-- Another load or a close came first: nothing is shown or said. -/
  | superseded
  /-- The load itself was cancelled. -/
  | cancelled
  | report (message : String)
  /-- Shows the composition in a text. -/
  | display (text : String)
  /-- A fault that is passed on. -/
  | broken (fault : FileFault)
  /-- The fetch has not ended. -/
  | waiting
  deriving DecidableEq, Repr

/-- What a load does once its fetch has ended. -/
def Loads.continuation (loads : Loads) (load : Nat) : Continuation :=
  match loads.state? load with
  | none => .waiting
  | some .pending => .waiting
  | some .cancelled => if loads.isCurrent load then .cancelled else .superseded
  | some (.done (.broken fault)) => .broken fault
  | some (.done (.failed message)) =>
    if loads.isCurrent load then .report message else .superseded
  | some (.done (.text text)) =>
    if !loads.isCurrent load then .superseded
    else if text.toList.all Text.isBlank then .report "No VML found."
    else .display text

structure Host (C : Type) where
  options : PlayerOptions C := {}
  /-- The player that is shown. -/
  player : Option Nat := none
  loads : Loads := {}
  deriving Repr

end Cuesheet
