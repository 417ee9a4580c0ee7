import Cuesheet.Proofs.Stage.Frames
import Cuesheet.Proofs.Stage.Keeping
import Mathlib.Logic.Relation

/-!
# What a reflector has noted

Whoever edits a document, takes it over or is handed its text writes that down, and so does whoever
delivers a frame that fails; the latest comes first. `Notes` says what the flags of a reflector tell
about this history: an edit is noted until the document is taken over (`unrebound`), and the text is
wanted until it is handed over or a frame fails (`unwritten`, `troubled`). While a reflector is not
flushed, a document is only edited (`Editing`), and a reflector asks for one frame at most.
-/

namespace Cuesheet

inductive ReflectorEvent where
  /-- A reflector is told of an edit that it does not ignore. -/
  | edited
  /-- Whoever takes the document over begins to. -/
  | rebound
  /-- The text of the document is handed over. -/
  | written (text : String)
  /-- A frame was delivered and failed. -/
  | failed
  deriving DecidableEq, Repr

namespace ReflectorEvent

def isEdit : ReflectorEvent → Bool
  | edited => true
  | _ => false

def isRebind : ReflectorEvent → Bool
  | rebound => true
  | _ => false

def isText : ReflectorEvent → Bool
  | written _ => true
  | _ => false

def isFailure : ReflectorEvent → Bool
  | failed => true
  | _ => false

/-- Whether something happened since something else did last. -/
def since (what last : ReflectorEvent → Bool) : List ReflectorEvent → Bool
  | [] => false
  | event :: earlier => what event || !last event && since what last earlier

/-- There was an edit since the document was taken over last. -/
def unrebound (events : List ReflectorEvent) : Bool := since isEdit isRebind events

/-- There was an edit since the text was handed over last. -/
def unwritten (events : List ReflectorEvent) : Bool := since isEdit isText events

/-- A frame failed since the text was handed over last. -/
def troubled (events : List ReflectorEvent) : Bool := since isFailure isText events

/-- Between two texts that are handed over, and before the first, the document is taken over. -/
def paired : List ReflectorEvent → Bool
  | [] => true
  | event :: earlier => (!isText event || since isRebind isText earlier) && paired earlier

end ReflectorEvent

open ReflectorEvent

/-- A document, who takes it over, and who is handed its text. -/
structure Link (C : Type) where
  document : Nat
  rebinding : C
  onText : Option C

variable {C : Type} {link : Link C} {flushes : Nat} {r : Reflector C}
  {events : List ReflectorEvent}

/-- What a reflector makes of an edit. -/
def Reflector.noting (r : Reflector C) (handle : Nat) : Reflector C :=
  { r with
    pendingRebind := true
    pendingText := r.pendingText || r.onText.isSome
    handle := some handle }

/-- What the flags of a reflector that was flushed so many times tell about its history. -/
structure Notes (link : Link C) (flushes : Nat) (r : Reflector C)
    (events : List ReflectorEvent) : Prop where
  document : r.document = link.document
  rebinding : r.rebinding = .call link.rebinding
  onText : r.onText = link.onText
  flushCount : r.flushCount = flushes
  rebound : events.countP isRebind = flushes
  paired : paired events = true
  handle : r.handle.isSome = r.pendingRebind
  rebind : r.pendingRebind = unrebound events
  text : link.onText.isSome = true → unwritten events = (r.pendingText || troubled events)
  silent : link.onText = none → r.pendingText = false

theorem Notes.noting (h : Notes link flushes r events) (handle : Nat) :
    Notes link flushes (r.noting handle) (.edited :: events) where
  document := h.document
  rebinding := h.rebinding
  onText := h.onText
  flushCount := h.flushCount
  rebound := h.rebound
  paired := h.paired
  handle := rfl
  rebind := rfl
  text hsome := by
    have hwanted : (r.noting handle).pendingText = true := by
      rw [Reflector.noting, h.onText, hsome, Bool.or_true]
    rw [hwanted]
    rfl
  silent hnone := by
    rw [Reflector.noting, h.onText, h.silent hnone, hnone]
    rfl

/-- Nothing is noted, or a frame is asked for to carry it over. -/
structure Carried (link : Link C) (flushes : Nat) (r : Reflector C)
    (events : List ReflectorEvent) : Prop extends Notes link flushes r events where
  carried : r.pendingText = true → r.pendingRebind = true

/-- A reflector that was just made has noted nothing. -/
theorem carried_fresh (link : Link C) :
    Carried link 0 { document := link.document, rebinding := .call link.rebinding
                     onText := link.onText } [] where
  document := rfl
  rebinding := rfl
  onText := rfl
  flushCount := rfl
  rebound := rfl
  paired := rfl
  handle := rfl
  rebind := rfl
  text _ := rfl
  silent _ := rfl
  carried := nofun

/-- The document was taken over, and its text may be wanted still. -/
structure Halfway (link : Link C) (flushes : Nat) (r : Reflector C)
    (events : List ReflectorEvent) : Prop extends Notes link flushes r events where
  halfway : since isRebind isText events = true

theorem Carried.noting (h : Carried link flushes r events) (handle : Nat) :
    Carried link flushes (r.noting handle) (.edited :: events) :=
  { h.toNotes.noting handle with carried := fun _ => rfl }

theorem Halfway.noting (h : Halfway link flushes r events) (handle : Nat) :
    Halfway link flushes (r.noting handle) (.edited :: events) :=
  { h.toNotes.noting handle with halfway := h.halfway }

/-! ## The steps of a flush -/

/-- A flush begins to hand the document over. -/
theorem Carried.takeOver (h : Carried link flushes r events) :
    Halfway link (flushes + 1)
      { r with handle := none, flushCount := r.flushCount + 1, pendingRebind := false }
      (.rebound :: events) where
  document := h.document
  rebinding := h.rebinding
  onText := h.onText
  flushCount := congrArg (· + 1) h.flushCount
  rebound := (List.countP_cons_of_pos rfl).trans (congrArg (· + 1) h.rebound)
  paired := h.paired
  handle := rfl
  rebind := rfl
  text := h.text
  silent := h.silent
  halfway := rfl

/-- A flush ends without a text that is wanted. -/
theorem Halfway.rest (h : Halfway link flushes r events)
    (hidle : r.pendingText = false) : Carried link flushes r events :=
  { h.toNotes with carried := fun hwanted => nomatch hidle.symm.trans hwanted }

/-- A flush begins to hand the text over. -/
theorem Halfway.handText (h : Halfway link flushes r events) (text : String) :
    Carried link flushes { r with pendingText := false }
      (.written text :: events) where
  document := h.document
  rebinding := h.rebinding
  onText := h.onText
  flushCount := h.flushCount
  rebound := h.rebound
  paired := by
    rw [ReflectorEvent.paired, h.halfway, h.paired]
    rfl
  handle := h.handle
  rebind := h.rebind
  text _ := rfl
  silent _ := rfl
  carried := nofun

/-- A flush fails for want of a text. -/
theorem Halfway.fail (h : Halfway link flushes r events)
    (hwanted : r.pendingText = true) :
    Carried link flushes { r with pendingText := false }
      (.failed :: events) where
  document := h.document
  rebinding := h.rebinding
  onText := h.onText
  flushCount := h.flushCount
  rebound := h.rebound
  paired := h.paired
  handle := h.handle
  rebind := h.rebind
  text hsome := by
    have hunwritten : unwritten events = true := by rw [h.text hsome, hwanted]; rfl
    exact hunwritten
  silent _ := rfl
  carried := nofun

/-! ## On the stage -/

/-- Whether a frame is requested for the flush of a reflector. -/
def FrameTask.isFlush {C : Type} (key : Nat) : FrameTask C → Bool
  | .flush other => other == key
  | _ => false

theorem FrameTask.isFlush_iff {C : Type} {key : Nat} {task : FrameTask C} :
    task.isFlush key = true ↔ task = .flush key := by
  cases task with
  | flush other =>
      constructor
      · exact fun h => congrArg _ (eq_of_beq h)
      · rintro ⟨⟩
        exact beq_self_eq_true key
  | tick group => exact ⟨fun h => (nomatch h), fun h => (nomatch h)⟩
  | call c => exact ⟨fun h => (nomatch h), fun h => (nomatch h)⟩

namespace Stage

variable {T W : Type} {key tree ahead : Nat} {node : Xml.Node}
  {s s' : Stage T C (W × List ReflectorEvent)}

/-- How many frames are requested for the flush of a reflector. -/
def waitingFlushes (s : Stage T C W) (key : Nat) : Nat :=
  s.queue.tasks.countP (FrameTask.isFlush key)

theorem waitingFlushes_manual {s : Stage T C W} {now : T} {queue : FrameQueue (FrameTask C)}
    (h : s.source = .manual now queue) :
    s.waitingFlushes key = queue.tasks.countP (FrameTask.isFlush key) := by
  rw [waitingFlushes, queue_manual h]

/-- Something happens that has nothing to do with a reflector. -/
structure Apart (key : Nat) (s s' : Stage T C (W × List ReflectorEvent)) : Prop where
  reflector : s'.reflectors[key]? = s.reflectors[key]?
  waiting : s'.waitingFlushes key = s.waitingFlushes key
  history : s'.history = s.history
  manual : s.Manual → s'.Manual

/-- A reflector is told of an edit that it does not ignore, which is written down, or something
else happens. -/
inductive Editing [TimeScalar T] (key : Nat) (s : Stage T C (W × List ReflectorEvent)) :
    Stage T C (W × List ReflectorEvent) → Prop
  | edit {r : Reflector C} {tree : Nat} {node : Xml.Node} (hr : s.reflectors[key]? = some r)
      (hcounts : isIgnored (s.lineage r.document tree node) = false) :
      Editing key s (after (do record .edited; noteEdit key tree node) s)
  | apart {s' : Stage T C (W × List ReflectorEvent)} (hapart : Apart key s s') : Editing key s s'

/-- What is known of a reflector and of its requests, with so many of them ahead in the frame that
is being delivered: it holds a handle while a flush is requested, and only then. -/
structure Reflects (key ahead : Nat) (P : Reflector C → List ReflectorEvent → Prop)
    (s : Stage T C (W × List ReflectorEvent)) : Prop where
  manual : s.Manual
  reflector : ∃ r, s.reflectors[key]? = some r ∧ P r s.history ∧
    ahead + s.waitingFlushes key = r.handle.isSome.toNat

/-- A reflector is there for a document, and frames come when they are stepped. -/
structure Tied (key : Nat) (link : Link C) (s : Stage T C W) : Prop where
  manual : s.Manual
  reflector : ∃ r, s.reflectors[key]? = some r ∧ r.document = link.document

theorem Reflects.tied {P : Reflector C → List ReflectorEvent → Prop}
    (hP : ∀ r events, P r events → r.document = link.document) (hs : Reflects key ahead P s) :
    Tied key link s := by
  obtain ⟨r, hr, hnotes, -⟩ := hs.reflector
  exact ⟨hs.manual, r, hr, hP r _ hnotes⟩

/-- What edits leave alone that only one reflector is told of. -/
structure Beside (key : Nat) (s s' : Stage T C W) : Prop where
  timelines : s'.timelines = s.timelines
  documents : s'.documents = s.documents
  reflectors : ∀ other, other ≠ key → s'.reflectors[other]? = s.reflectors[other]?

theorem modifyReflector_ne {s : Stage T C W} {other : Nat} (h : other ≠ key)
    (f : Reflector C → Reflector C) :
    (s.modifyReflector key f).reflectors[other]? = s.reflectors[other]? :=
  List.getElem?_modify_ne f _ h.symm

variable [TimeScalar T]

/-- A reflector takes note of an edit, and asks for a frame unless it has asked. -/
theorem noteEdit_spec {s : Stage T C W} {r : Reflector C} (hmanual : s.Manual)
    (hr : s.reflectors[key]? = some r)
    (hcounts : isIgnored (s.lineage r.document tree node) = false) :
    ∃ handle reflectors source, noteEdit key tree node s = .ok () { s with reflectors, source } ∧
      reflectors[key]? = some (r.noting handle) ∧
      (∀ other, other ≠ key → reflectors[other]? = s.reflectors[other]?) ∧
      ({ s with reflectors, source } : Stage T C W).Manual ∧
      ({ s with reflectors, source } : Stage T C W).waitingFlushes key =
        s.waitingFlushes key + (!r.handle.isSome).toNat := by
  obtain ⟨now, queue, hsource⟩ := hmanual
  have hchanged : ∀ (reflectors : List (Reflector C)) (f : Reflector C → Reflector C) {r'},
      reflectors[key]? = some r' → (reflectors.modify key f)[key]? = some (f r') :=
    fun reflectors f r' h => by rw [List.getElem?_modify_eq, h]; rfl
  unfold noteEdit
  rw [get_bind, hr]
  dsimp only
  rw [if_neg (by simp [hcounts])]
  cases hhandle : r.handle with
  | some handle =>
      refine ⟨handle, _, s.source, rfl, (hchanged _ _ hr).trans ?_,
        fun other hne => modifyReflector_ne hne _, ⟨now, queue, hsource⟩, rfl⟩
      rw [Reflector.noting, ← hhandle]
  | none =>
      have hrequest := request_manual (s := s.modifyReflector key fun r =>
        { r with pendingRebind := true, pendingText := r.pendingText || r.onText.isSome })
        hsource (.flush key)
      refine ⟨queue.nextHandle, _, _, (bind_ok rfl _).trans (bind_ok hrequest _),
        hchanged _ _ (hchanged _ _ hr), fun other hne => ?_, ⟨now, _, rfl⟩, ?_⟩
      · exact (modifyReflector_ne hne _).trans (modifyReflector_ne hne _)
      rw [waitingFlushes_manual hsource, waitingFlushes_manual rfl, FrameQueue.tasks_request,
        List.countP_append]
      congr 1
      exact List.countP_cons_of_pos (beq_self_eq_true key)

/-- What a reflector's note of an edit keeps true. -/
def KeptByNotes (P : Reflector C → List ReflectorEvent → Prop) : Prop :=
  ∀ r events handle, P r events → P (r.noting handle) (.edited :: events)

theorem Editing.reflects {P : Reflector C → List ReflectorEvent → Prop} (hP : KeptByNotes P)
    (h : Editing key s s') (hs : Reflects key ahead P s) : Reflects key ahead P s' := by
  obtain ⟨r, hr, hnotes, hwaiting⟩ := hs.reflector
  cases h with
  | apart hapart =>
      refine ⟨hapart.manual hs.manual, r, ?_, ?_, ?_⟩
      · rw [hapart.reflector, hr]
      · rw [hapart.history]
        exact hnotes
      · rw [hapart.waiting]
        exact hwaiting
  | edit hr' hcounts =>
      obtain rfl := Option.some.inj (hr.symm.trans hr')
      obtain ⟨handle, reflectors, source, hrun, hr₁, -, hmanual, hmore⟩ :=
        noteEdit_spec (s := s.recorded .edited) hs.manual hr' hcounts
      have hafter : (do record .edited; noteEdit key _ _ : Action T C _ Unit) s = _ :=
        (bind_ok rfl _).trans hrun
      rw [after, hafter]
      refine ⟨hmanual, _, hr₁, hP r _ handle hnotes, hmore.symm ▸ ?_⟩
      have hrecorded : (s.recorded .edited).waitingFlushes key = s.waitingFlushes key := rfl
      rw [hrecorded, ← Nat.add_assoc, hwaiting]
      cases r.handle <;> rfl

/-- What is known of a reflector stays true while a document is edited. -/
theorem Reflects.edits {P : Reflector C → List ReflectorEvent → Prop} (hP : KeptByNotes P)
    (hs : Reflects key ahead P s) (h : Relation.ReflTransGen (Editing key) s s') :
    Reflects key ahead P s' := by
  induction h with
  | refl => exact hs
  | tail _ hediting ih => exact hediting.reflects hP ih

/-! ## Edits of a document -/

/-- Whether a reflector does not ignore an edit of a node of its document. -/
def heeds (s : Stage T C W) (key : Nat) (node : Xml.Node) : Bool :=
  match s.reflectors[key]? with
  | none => false
  | some r =>
    match s.documents[r.document]? with
    | none => false
    | some d => !isIgnored (s.lineage r.document d.tree node)

section Watched

variable {react : React T C (W × List ReflectorEvent)} {watcher : C} {r : Reflector C}
  {d : LiveDocument C}
  (hwatch : ∀ m s, react watcher (.mutation m) s =
    .ok () (if s.heeds key m.target then s.recorded .edited else s))
include hwatch

/-- A watcher writes down what a reflector is told of right after it. -/
theorem noticeEach_editing (hmanual : s.Manual) (hr : s.reflectors[key]? = some r)
    (hd : s.documents[r.document]? = some d) (m : Mutation) :
    ∃ s', noticeEach react d.tree m [.call watcher, .reflector key] s = .ok () s' ∧
      Editing key s s' ∧ Beside key s s' := by
  have hheeds : s.heeds key (s.currentNode d.tree m.target) =
      !isIgnored (s.lineage r.document d.tree (s.currentNode d.tree m.target)) := by
    unfold heeds
    rw [hr]
    dsimp only
    rw [hd]
  have hwatched : notice react d.tree m (.call watcher) s = _ := hwatch _ s
  have heach : noticeEach react d.tree m [.call watcher, .reflector key] s = _ :=
    bind_ok hwatched _
  have hlast : ∀ {s₁ s₂ : Stage T C (W × List ReflectorEvent)},
      noteEdit key d.tree (s₁.currentNode d.tree m.target) s₁ = .ok () s₂ →
        noticeEach react d.tree m [.reflector key] s₁ = .ok () s₂ := fun h => bind_ok h _
  rw [heach, hheeds]
  cases hignored : isIgnored (s.lineage r.document d.tree (s.currentNode d.tree m.target)) with
  | false =>
      obtain ⟨handle, reflectors, source, hnote, -, hothers, -⟩ :=
        noteEdit_spec (s := s.recorded .edited) hmanual hr hignored
      have hediting := Editing.edit hr hignored
      have hafter : (do record .edited; noteEdit key _ _ : Action T C _ Unit) s = _ :=
        (bind_ok rfl _).trans hnote
      rw [after, hafter] at hediting
      exact ⟨_, hlast hnote, hediting, rfl, rfl, hothers⟩
  | true =>
      have hsame : noteEdit key d.tree (s.currentNode d.tree m.target) s = .ok () s := by
        unfold noteEdit
        rw [get_bind, hr]
        dsimp only
        rw [if_pos hignored]
        rfl
      exact ⟨s, hlast hsame, .apart ⟨rfl, rfl, rfl, id⟩, rfl, rfl, fun _ _ => rfl⟩

theorem announce_editing (hmanual : s.Manual) (hr : s.reflectors[key]? = some r)
    (hd : s.documents[r.document]? = some d)
    (hobservers : d.observers = [.call watcher, .reflector key]) (m : Mutation) :
    ∃ s', announce react r.document m s = .ok () s' ∧ Editing key s s' ∧ Beside key s s' := by
  have hannounce : announce react r.document m s =
      noticeEach react d.tree m [.call watcher, .reflector key] s := by
    rw [← hobservers, announce, get_bind, hd]
  rw [hannounce]
  exact noticeEach_editing hwatch hmanual hr hd m

/-- All that happens when the document of a watched reflector is edited is what the reflector makes
of it. -/
theorem commitEdit_editing (hmanual : s.Manual) (hr : s.reflectors[key]? = some r)
    (hd : s.documents[r.document]? = some d)
    (hobservers : d.observers = [.call watcher, .reflector key]) (edited : Document × Mutation) :
    ∃ s', commitEdit react r.document edited s = .ok () s' ∧
      Relation.ReflTransGen (Editing key) s s' ∧ Beside key s s' := by
  obtain ⟨trees, hstored⟩ : ∃ trees,
      s.storeTree r.document edited.2.kind edited.1.tree = { s with trees } := by
    unfold storeTree
    rw [hd]
    exact ⟨_, rfl⟩
  have hapart : Apart key s { s with trees } := ⟨rfl, rfl, rfl, id⟩
  obtain ⟨s', hrun, hediting, hbeside⟩ :=
    announce_editing hwatch (s := { s with trees }) hmanual hr hd hobservers edited.2
  rw [commitEdit, modify_bind, hstored]
  exact ⟨s', hrun, .tail (.single (.apart hapart)) hediting, hbeside.timelines,
    hbeside.documents, hbeside.reflectors⟩

/-- So it is when the document takes over a tree, as from a batch of patches that is all or
nothing. -/
theorem takeOver_editing (hmanual : s.Manual) (hr : s.reflectors[key]? = some r)
    (hd : s.documents[r.document]? = some d)
    (hobservers : d.observers = [.call watcher, .reflector key]) (tree : Nat)
    (prefixes : Entries String String) :
    ∃ s', takeOver react r.document tree prefixes s = .ok () s' ∧
      Relation.ReflTransGen (Editing key) s s' := by
  obtain ⟨documents, hmodified, hd'⟩ : ∃ documents, (s.modifyDocument r.document fun d =>
      { d with tree, prefixes := d.prefixes.putAll prefixes }) = { s with documents } ∧
        documents[r.document]? = some { d with tree, prefixes := d.prefixes.putAll prefixes } := by
    refine ⟨_, rfl, ?_⟩
    rw [List.getElem?_modify_eq, hd]
    rfl
  have hapart : Apart key s { s with documents } := ⟨rfl, rfl, rfl, id⟩
  rw [takeOver, modify_bind, hmodified, withDocument, get_bind]
  generalize ({ s with documents } : Stage T C _).document? r.document = doc
  cases doc with
  | none => exact ⟨_, rfl, .single (.apart hapart)⟩
  | some doc =>
      obtain ⟨s', hrun, hediting, -⟩ := announce_editing hwatch (s := { s with documents })
        hmanual hr hd' hobservers { kind := .childList, target := doc.tree.root }
      exact ⟨s', hrun, .tail (.single (.apart hapart)) hediting⟩

end Watched

end Stage

end Cuesheet
