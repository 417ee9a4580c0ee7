import Cuesheet.Stage.Editing
import Cuesheet.Stage.Playing

/-!
# Reflectors on the stage

A reflector carries the edits of a document over once a frame, however many there were: whoever
takes the document over gets it once, and so does whoever wants its text. A document that no
longer resolves is reported to the player that should play it, which goes on with what it has.
-/

namespace Cuesheet

def Document.compose {T : Type} [TimeScalar T] (doc : Document) :
    Except CompositionFault (Composition T) :=
  match doc.element with
  | .error fault => .error (.name fault)
  | .ok root =>
    match Resolution.compose root with
    | .error fault => .error (.resolution fault)
    | .ok composition => .ok composition

namespace Stage

variable {T C W : Type} [TimeScalar T]

/-- Does something with a reflector, if it is there. -/
def withReflector (key : Nat) (act : Reflector C → Action T C W Unit) : Action T C W Unit := do
  match (← get).reflectors[key]? with
  | none => pure ()
  | some r => act r

/-- Makes a reflector for a document: its key. -/
def reflect (document : Nat) (rebinding : Rebinding C) (onText : Option C) :
    Action T C W Nat := do
  let key := (← get).reflectors.length
  modify fun s => { s with reflectors := s.reflectors ++ [{ document, rebinding, onText }] }
  observe document (.reflector key)
  return key

/-- Gives a player what a document resolves to. -/
def rebindFrom (react : React T C W) (player document : Nat) : Action T C W Unit :=
  withDocument document fun doc =>
    match (doc.compose : Except CompositionFault (Composition T)) with
    | .ok composition => rebind react player composition
    | .error fault =>
      if fault.isReported then
        withPlayer player fun p => tell react p.options.onError (.error (some fault.message))
      else throw (.composition fault)

/-- Hands a changed document to whoever takes it over. -/
def handOver (react : React T C W) (document : Nat) : Rebinding C → Action T C W Unit
  | .player key => rebindFrom react key document
  | .call c => react c (.changed document)

/-- Carries over what a reflector has noted. -/
def flush (react : React T C W) (key : Nat) : Action T C W Unit := do
  modify fun s => s.modifyReflector key fun r =>
    { r with handle := none, flushCount := r.flushCount + 1 }
  withReflector key fun r =>
    if r.pendingRebind then do
      modify fun s => s.modifyReflector key fun r => { r with pendingRebind := false }
      handOver react r.document r.rebinding
    else pure ()
  withReflector key fun r =>
    match r.onText with
    | none => pure ()
    | some c =>
      if r.pendingText then do
        modify fun s => s.modifyReflector key fun r => { r with pendingText := false }
        let text ← write r.document
        react c (.written text)
      else pure ()

/-- Ends a reflector: it observes no more, and what it has noted is dropped. -/
def closeReflector [DecidableEq C] (key : Nat) : Action T C W Unit :=
  withReflector key fun r => do
    disconnect r.document (.reflector key)
    cancelIf r.handle
    modify fun s => s.modifyReflector key fun r =>
      { r with handle := none, pendingRebind := false, pendingText := false }

end Stage

end Cuesheet
