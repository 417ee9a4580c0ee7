import Cuesheet.Proofs.Stage.Coalescing
import Cuesheet.Proofs.Stage.Ignoring

/-!
# Reflectors that are closed

What happens to reflectors happens in moves (`Move`): they are made, told of edits, flushed and
closed. A reflector observes its own document, once at most (`Loyal`), so that it observes nothing
once it is closed, and has nothing to do (`Retired`). But an edit is told to those who observed the
document when it began, and a frame serves what was asked for before it. A retired reflector stays
retired in every move but one, which is that it is told of an edit that it does not ignore
(`Retired.next`), and all other moves do nothing to it (`Retired.idle_iff`). So nothing is done to
closed reflectors in a run (`Final`) unless they are told of edits then (`Undergoes.final_iff`).
-/

namespace Cuesheet

open Xml (Node)

variable {T C W : Type}

/-- Nothing is noted, and no frame is asked for. -/
structure Reflector.AtRest (r : Reflector C) : Prop where
  rebind : r.pendingRebind = false
  text : r.pendingText = false
  handle : r.handle = none

theorem Reflector.AtRest.not_laden {r : Reflector C} (h : r.AtRest) : ¬ r.Laden := fun hladen =>
  Bool.noConfusion (h.rebind.symm.trans hladen.rebind)

/-- What a reflector is when it has been closed. -/
def Reflector.reset (r : Reflector C) : Reflector C :=
  { r with handle := none, pendingRebind := false, pendingText := false }

theorem Reflector.atRest_reset (r : Reflector C) : r.reset.AtRest := ⟨rfl, rfl, rfl⟩

theorem Reflector.AtRest.reset {r : Reflector C} (h : r.AtRest) : r.reset = r := by
  cases r
  obtain ⟨rfl, rfl, rfl⟩ := h
  rfl

namespace Stage

variable {s s' : Stage T C W} {key other document : Nat} {r : Reflector C}

/-! ## Duties -/

theorem observers_modifyDocument (s : Stage T C W) (d document : Nat)
    (f : LiveDocument C → LiveDocument C) :
    (s.modifyDocument d f).observers document =
      if document = d then ((s.documents[d]?).map fun d => (f d).observers).getD []
      else s.observers document := by
  unfold observers modifyDocument
  rw [List.getElem?_modify]
  split
  · rename_i heq
    subst heq
    rw [if_pos rfl]
    cases s.documents[d]? <;> rfl
  · rename_i hne
    rw [if_neg (Ne.symm hne)]
    simp

variable [DecidableEq C]

/-- How often a reflector observes a document. -/
def watches (s : Stage T C W) (document key : Nat) : Nat :=
  (s.observers document).count (.reflector key)

/-- Reflectors are as they were, and observe what they observed. -/
structure SameDuties (s s' : Stage T C W) : Prop where
  reflectors : s'.reflectors = s.reflectors
  watches : ∀ document key, s'.watches document key = s.watches document key

/-- A reflector observes its own document, once at most. -/
def Loyal (s : Stage T C W) : Prop :=
  ∀ document key, s.watches document key ≤ 1 ∧
    (0 < s.watches document key → ∃ r, s.reflectors[key]? = some r ∧ r.document = document)

/-- A reflector observes nothing and has nothing to do. -/
structure Retired (key : Nat) (s : Stage T C W) : Prop where
  rests : ∃ r, s.reflectors[key]? = some r ∧ r.AtRest
  watches : ∀ document, s.watches document key = 0

theorem Loyal.of_same (h : s.Loyal) (hsame : SameDuties s s') : s'.Loyal := by
  intro document key
  rw [hsame.watches, hsame.reflectors]
  exact h document key

theorem Retired.of_same (h : Retired key s) (hsame : SameDuties s s') : Retired key s' where
  rests := by
    rw [hsame.reflectors]
    exact h.rests
  watches document := (hsame.watches document key).trans (h.watches document)

theorem Loyal.watches_eq_zero (h : s.Loyal) (hr : s.reflectors[key]? = some r)
    (hne : r.document ≠ document) : s.watches document key = 0 := by
  refine Nat.eq_zero_of_not_pos fun hpos => ?_
  obtain ⟨r', hr', hdocument⟩ := (h document key).2 hpos
  obtain rfl := Option.some.inj (hr.symm.trans hr')
  exact hne hdocument

theorem Loyal.watches_missing (h : s.Loyal) (hnone : s.reflectors[key]? = none) :
    s.watches document key = 0 := by
  refine Nat.eq_zero_of_not_pos fun hpos => ?_
  obtain ⟨r, hr, -⟩ := (h document key).2 hpos
  cases hnone.symm.trans hr

theorem watches_disconnect (s : Stage T C W) (d document other key : Nat) :
    (after (disconnect d (.reflector other)) s).watches document key =
      if document = d ∧ key = other then s.watches document key - 1
      else s.watches document key := by
  have hobservers : (after (disconnect d (.reflector other)) s).observers document = _ :=
    observers_modifyDocument s d document _
  unfold watches
  rw [hobservers]
  by_cases hdocument : document = d
  · subst hdocument
    rw [if_pos rfl]
    unfold observers
    cases s.documents[document]? with
    | none => split <;> rfl
    | some d =>
        dsimp only [Option.map_some, Option.getD_some]
        rw [List.count_erase]
        by_cases hkey : key = other
        · simp [hkey]
        · simp [hkey, Ne.symm hkey]
  · rw [if_neg hdocument, if_neg fun h => hdocument h.1]

/-- A reflector that is made observes its document, if that is there. -/
theorem watches_reflect (s : Stage T C W) (d : Nat) (rebinding : Rebinding C) (onText : Option C)
    (document key : Nat) :
    (after (reflect d rebinding onText) s).watches document key = s.watches document key ∨
      document = d ∧ key = s.reflectors.length ∧
        (after (reflect d rebinding onText) s).watches document key =
          s.watches document key + 1 := by
  have hobservers : (after (reflect d rebinding onText) s).observers document = _ :=
    observers_modifyDocument { s with reflectors := _ } d document _
  unfold watches
  rw [hobservers]
  by_cases hdocument : document = d
  · subst hdocument
    rw [if_pos rfl]
    unfold observers
    cases s.documents[document]? with
    | none => exact .inl rfl
    | some d =>
        dsimp only [Option.map_some, Option.getD_some]
        rw [List.count_append, List.count_singleton]
        by_cases hkey : key = s.reflectors.length
        · exact .inr ⟨rfl, hkey, by simp [hkey]⟩
        · exact .inl (by simp [Ne.symm hkey])
  · rw [if_neg hdocument]
    exact .inl rfl

theorem SameDuties.storeTree (s : Stage T C W) (key : Nat) (kind : MutationKind)
    (tree : Xml.Tree) : SameDuties s (s.storeTree key kind tree) := by
  unfold Stage.storeTree
  split
  · exact ⟨rfl, fun _ _ => rfl⟩
  · exact ⟨rfl, fun _ _ => rfl⟩

/-- A document that takes over a tree keeps its observers. -/
theorem SameDuties.modifyDocument (s : Stage T C W) (key : Nat)
    {f : LiveDocument C → LiveDocument C} (hf : ∀ d, (f d).observers = d.observers) :
    SameDuties s (s.modifyDocument key f) := by
  refine ⟨rfl, fun document other => ?_⟩
  unfold Stage.watches
  rw [observers_modifyDocument]
  split
  · rename_i heq
    subst heq
    unfold observers
    simp only [hf]
  · rfl

/-! ## Changes of one reflector -/

theorem Loyal.modifyReflector (h : s.Loyal) {f : Reflector C → Reflector C}
    (hf : ∀ r, (f r).document = r.document) : (s.modifyReflector key f).Loyal := by
  intro document other
  obtain ⟨honce, hmember⟩ := h document other
  refine ⟨honce, fun hpos => ?_⟩
  obtain ⟨r, hr, hdocument⟩ := hmember hpos
  unfold Stage.modifyReflector
  rw [List.getElem?_modify, hr]
  refine ⟨_, rfl, ?_⟩
  split
  · exact (hf r).trans hdocument
  · exact hdocument

theorem Retired.modifyReflector (h : Retired key s) {f : Reflector C → Reflector C}
    (hf : other = key → ∀ r : Reflector C, r.AtRest → (f r).AtRest) :
    Retired key (s.modifyReflector other f) where
  rests := by
    obtain ⟨r, hr, hrests⟩ := h.rests
    by_cases heq : other = key
    · subst heq
      exact ⟨f r, reflector_modifyReflector hr f, hf rfl r hrests⟩
    · exact ⟨r, (modifyReflector_ne (Ne.symm heq) f).trans hr, hrests⟩
  watches := h.watches

/-! ## Reflectors that are made and closed -/

/-- The stage on which a reflector has been closed. -/
def discharged (s : Stage T C W) (key : Nat) (r : Reflector C) : Stage T C W :=
  Stage.modifyReflector
    { after (disconnect r.document (.reflector key)) s with
      source := r.handle.elim s.source s.source.cancel } key Reflector.reset

theorem closeReflector_some (hr : s.reflectors[key]? = some r) :
    closeReflector key s = .ok () (s.discharged key r) := by
  unfold closeReflector discharged
  rw [withReflector_some hr]
  cases r.handle <;> rfl

theorem keeps_closeReflector {I : Stage T C W → Prop}
    (h : ∀ s r, I s → I (s.discharged key r)) : Keeps I (closeReflector key) := by
  intro s hs
  unfold after
  cases hr : s.reflectors[key]? with
  | none =>
      have hnobody : closeReflector key s = .ok () s := by
        rw [closeReflector, withReflector, get_bind, hr]
        rfl
      rw [hnobody]
      exact hs
  | some r =>
      rw [closeReflector_some hr]
      exact h s r hs

theorem Loyal.make (h : s.Loyal) (d : Nat) (rebinding : Rebinding C) (onText : Option C) :
    (after (reflect d rebinding onText) s).Loyal := by
  have hreflectors : (after (reflect d rebinding onText) s).reflectors =
      s.reflectors ++ [{ document := d, rebinding, onText }] := rfl
  intro document key
  rw [hreflectors]
  obtain ⟨honce, hmember⟩ := h document key
  obtain hsame | ⟨rfl, rfl, hwatches⟩ := watches_reflect s d rebinding onText document key
  · rw [hsame]
    refine ⟨honce, fun hpos => ?_⟩
    obtain ⟨r, hr, hdocument⟩ := hmember hpos
    rw [List.getElem?_append_left (List.getElem?_eq_some_iff.mp hr).1]
    exact ⟨r, hr, hdocument⟩
  · rw [hwatches, h.watches_missing (List.getElem?_eq_none le_rfl)]
    exact ⟨le_rfl, fun _ => ⟨_, List.getElem?_concat_length, rfl⟩⟩

theorem Loyal.discharged (h : s.Loyal) (key : Nat) (r : Reflector C) :
    (s.discharged key r).Loyal := by
  refine Loyal.modifyReflector (fun document other => ?_) fun _ => rfl
  have hle : (after (disconnect r.document (.reflector key)) s).watches document other ≤
      s.watches document other := by
    rw [watches_disconnect]
    split <;> omega
  obtain ⟨honce, hmember⟩ := h document other
  exact ⟨hle.trans honce, fun hpos => hmember (hpos.trans_le hle)⟩

/-- Who is closed observes nothing any more, and has nothing to do. -/
theorem Loyal.retired (h : s.Loyal) (hr : s.reflectors[key]? = some r) :
    Retired key (s.discharged key r) := by
  refine ⟨⟨_, reflector_modifyReflector hr _, r.atRest_reset⟩, fun document => ?_⟩
  refine (watches_disconnect s r.document document key key).trans ?_
  by_cases hdocument : document = r.document
  · rw [if_pos ⟨hdocument, rfl⟩]
    have := (h document key).1
    omega
  · rw [if_neg fun heq => hdocument heq.1]
    exact h.watches_eq_zero hr (Ne.symm hdocument)

theorem Retired.discharged (h : Retired key s) (other : Nat) (r : Reflector C) :
    Retired key (s.discharged other r) := by
  have hwatches : ∀ document,
      (after (disconnect r.document (.reflector other)) s).watches document key = 0 := by
    intro document
    rw [watches_disconnect, h.watches document, Nat.zero_sub, ite_self]
  refine Retired.modifyReflector ?_ fun _ r _ => r.atRest_reset
  exact ⟨h.rests, hwatches⟩

theorem Retired.make (h : Retired key s) (d : Nat) (rebinding : Rebinding C)
    (onText : Option C) : Retired key (after (reflect d rebinding onText) s) := by
  obtain ⟨r, hr, hrests⟩ := h.rests
  have hlt := (List.getElem?_eq_some_iff.mp hr).1
  refine ⟨⟨r, (List.getElem?_append_left hlt).trans hr, hrests⟩, fun document => ?_⟩
  obtain hsame | ⟨-, rfl, -⟩ := watches_reflect s d rebinding onText document key
  · exact hsame.trans (h.watches document)
  · exact absurd hlt (Nat.lt_irrefl _)

theorem Retired.not_mem (h : Retired key s) {d : LiveDocument C}
    (hd : s.documents[document]? = some d) : .reflector key ∉ d.observers := by
  have hnone := h.watches document
  rw [Stage.watches, observers, hd] at hnone
  exact List.count_eq_zero.mp hnone

/-- Closing a reflector again does nothing. -/
theorem Retired.close (h : Retired key s) : closeReflector key s = .ok () s := by
  obtain ⟨r, hr, hrests⟩ := h.rests
  have hdisconnect : after (disconnect r.document (.reflector key)) s = s := by
    change s.modifyDocument r.document _ = s
    cases hd : s.documents[r.document]? with
    | none => rw [modifyDocument, List.modify_eq_self (List.getElem?_eq_none_iff.mp hd)]
    | some d =>
        have hsame : { d with observers := d.observers.erase (.reflector key) } = d := by
          rw [List.erase_of_not_mem (h.not_mem hd)]
        rw [modifyDocument, modify_congr_of_getElem? (g := id) hd hsame, List.modify_id]
  rw [closeReflector_some hr, Stage.discharged, hdisconnect, hrests.handle]
  exact congrArg (EStateM.Result.ok ()) (modifyReflector_id hr hrests.reset)

/-! ## Moves -/

variable [TimeScalar T]

/-- What happens to a reflector: it is made; it is told of an edit; it hands its document over, or
the text of it; it is closed. -/
inductive Move (C : Type) where
  | make (document : Nat) (rebinding : Rebinding C) (onText : Option C)
  | tell (reflector tree : Nat) (node : Node)
  | flush (reflector : Nat)
  | hand (reflector : Nat)
  | close (reflector : Nat)

namespace Move

/-- The stage after a move. Whoever is called in a flush goes on from there. -/
def next (s : Stage T C W) : Move C → Stage T C W
  | make document rebinding onText => after (reflect document rebinding onText) s
  | tell key tree node => after (noteEdit key tree node) s
  | flush key => s.flushing key
  | hand key => s.handing key
  | close key => after (closeReflector key) s

/-- The reflector that it happens to, if it was there before. -/
def reflector? : Move C → Option Nat
  | make _ _ _ => none
  | tell key _ _ => some key
  | flush key => some key
  | hand key => some key
  | close key => some key

/-- A reflector that is there is closed. -/
def Closes (key : Nat) (s : Stage T C W) (move : Move C) : Prop :=
  move = close key ∧ key < s.reflectors.length

/-- A reflector is told of an edit that it does not ignore. -/
def Stirs (key : Nat) (s : Stage T C W) (move : Move C) : Prop :=
  ∃ tree node r, move = tell key tree node ∧ s.reflectors[key]? = some r ∧
    ¬ isIgnored (s.lineage r.document tree node) = true

/-- Nothing is done to the reflector that a move is about, and nobody is called, whoever there is to
be called; only flushes are counted. -/
def Idle (s : Stage T C W) : Move C → Prop
  | make _ _ _ => True
  | tell key tree node => noteEdit key tree node s = .ok () s
  | flush key => ∀ react, Stage.flush react key s =
      .ok () (s.modifyReflector key fun r => { r with flushCount := r.flushCount + 1 })
  | hand key => ∀ react, handText react key s = .ok () s
  | close key => closeReflector key s = .ok () s

end Move

/-- Reflectors stay loyal in every move. -/
theorem Loyal.next (h : s.Loyal) (move : Move C) : (move.next s).Loyal := by
  cases move with
  | make document rebinding onText => exact h.make document rebinding onText
  | tell key tree node =>
      exact keeps_noteEdit (fun _ _ h => h) (fun _ _ hf h => h.modifyReflector hf) tree node s h
  | flush key =>
      refine Loyal.modifyReflector ?_ fun _ => rfl
      exact h.modifyReflector fun _ => rfl
  | hand key => exact h.modifyReflector fun _ => rfl
  | close key => exact keeps_closeReflector (fun _ r h => h.discharged key r) s h

/-- A reflector stays retired unless it is told of an edit that it does not ignore. -/
theorem Retired.next (h : Retired key s) {move : Move C} (hquiet : ¬ move.Stirs key s) :
    Retired key (move.next s) := by
  cases move with
  | make document rebinding onText => exact h.make document rebinding onText
  | tell other tree node =>
      by_cases heq : other = key
      · subst heq
        obtain ⟨r, hr, -⟩ := h.rests
        have hignored : isIgnored (s.lineage r.document tree node) = true :=
          Decidable.not_not.mp fun hcounts => hquiet ⟨tree, node, r, rfl, hr, hcounts⟩
        rw [Move.next, after, noteEdit_idles hr (.inl hignored)]
        exact h
      -- another reflector takes note of it, if any
      · exact keeps_noteEdit (fun _ _ h => ⟨h.rests, h.watches⟩)
          (fun _ _ _ h => h.modifyReflector fun heq' => absurd heq' heq) tree node s h
  | flush other =>
      refine Retired.modifyReflector (h.modifyReflector ?_) ?_
      · exact fun _ r hrests => ⟨hrests.rebind, hrests.text, rfl⟩
      · exact fun _ r hrests => ⟨rfl, hrests.text, hrests.handle⟩
  | hand other => exact h.modifyReflector fun _ r hrests => ⟨hrests.rebind, rfl, hrests.handle⟩
  | close other => exact keeps_closeReflector (fun _ r h => h.discharged other r) s h

theorem Retired.flush (h : Retired key s) (react : React T C W) :
    Stage.flush react key s =
      .ok () (s.modifyReflector key fun r => { r with flushCount := r.flushCount + 1 }) := by
  obtain ⟨r, hr, hrebind, htext, hhandle⟩ := h.rests
  have hcounted : s.modifyReflector key (fun r =>
      { r with handle := none, flushCount := r.flushCount + 1 }) =
        s.modifyReflector key fun r => { r with flushCount := r.flushCount + 1 } := by
    unfold Stage.modifyReflector
    rw [modify_congr_of_getElem? hr]
    rw [hhandle]
  have hr' := reflector_modifyReflector hr fun r : Reflector C =>
    { r with flushCount := r.flushCount + 1 }
  unfold Stage.flush
  rw [modify_bind, hcounted]
  refine (bind_ok (a := ()) ((withReflector_some hr' _).trans ?_) _).trans
    ((withReflector_some hr' _).trans ?_)
  · rw [if_neg (by rw [hrebind]; decide)]
    rfl
  · dsimp only
    rw [htext]
    cases r.onText <;> rfl

omit [TimeScalar T] in
theorem Retired.handText (h : Retired key s) (react : React T C W) :
    Stage.handText react key s = .ok () s := by
  obtain ⟨r, hr, -, htext, -⟩ := h.rests
  unfold Stage.handText
  rw [withReflector_some hr, htext]
  cases r.onText <;> rfl

/-- All that can be done to a retired reflector is to tell it of an edit that it does not ignore. -/
theorem Retired.idle_iff (h : Retired key s) {move : Move C} (hkey : move.reflector? = some key) :
    move.Idle s ↔ ¬ move.Stirs key s := by
  cases move with
  | make => cases hkey
  | tell =>
      cases hkey
      rename_i tree node
      obtain ⟨r, hr, hrests⟩ := h.rests
      constructor
      · rintro hidle ⟨tree', node', r', ⟨⟩, hr', hcounts⟩
        obtain rfl := Option.some.inj (hr.symm.trans hr')
        obtain ⟨r', hr', -, hladen⟩ := noteEdit_laden hr hcounts hidle
        obtain rfl := Option.some.inj (hr.symm.trans hr')
        exact hrests.not_laden hladen
      · intro hquiet
        refine noteEdit_idles hr (.inl (Decidable.not_not.mp fun hcounts => ?_))
        exact hquiet ⟨tree, node, r, rfl, hr, hcounts⟩
  | flush =>
      cases hkey
      exact iff_of_true h.flush nofun
  | hand =>
      cases hkey
      exact iff_of_true h.handText nofun
  | close =>
      cases hkey
      exact iff_of_true h.close nofun

/-! ## Runs -/

/-- A move, and the stage on which it is made. -/
structure Juncture (T C W : Type) where
  stage : Stage T C W
  move : Move C

/-- What happens from one stage on until another: moves, the latest first, and in between anything
that reflectors have nothing to do with. -/
inductive Undergoes (s : Stage T C W) : List (Juncture T C W) → Stage T C W → Prop
  | refl : Undergoes s [] s
  | aside {js : List (Juncture T C W)} {s₁ s₂ : Stage T C W} (hrun : Undergoes s js s₁)
      (hsame : SameDuties s₁ s₂) : Undergoes s js s₂
  | move {js : List (Juncture T C W)} {s₁ : Stage T C W} (hrun : Undergoes s js s₁)
      (move : Move C) : Undergoes s (⟨s₁, move⟩ :: js) (move.next s₁)

/-- A reflector was closed in the course of some moves. -/
def ClosedIn (key : Nat) (js : List (Juncture T C W)) : Prop :=
  ∃ j ∈ js, j.move.Closes key j.stage

/-- Nothing is done to a reflector once it is closed. -/
def Final : List (Juncture T C W) → Prop
  | [] => True
  | j :: earlier =>
    (∀ key, j.move.reflector? = some key → ClosedIn key earlier → j.move.Idle j.stage) ∧
      Final earlier

/-- Whoever is told of an edit that it does not ignore has not been closed before. -/
def Timely : List (Juncture T C W) → Prop
  | [] => True
  | j :: earlier => (∀ key, ClosedIn key earlier → ¬ j.move.Stirs key j.stage) ∧ Timely earlier

namespace Undergoes

variable {js : List (Juncture T C W)}

theorem trans {s'' : Stage T C W} {later : List (Juncture T C W)} (hrun : Undergoes s js s')
    (hlater : Undergoes s' later s'') : Undergoes s (later ++ js) s'' := by
  induction hlater with
  | refl => exact hrun
  | aside _ hsame ih => exact ih.aside hsame
  | move _ move ih => exact ih.move move

theorem loyal (hrun : Undergoes s js s') (hs : s.Loyal) : s'.Loyal := by
  induction hrun with
  | refl => exact hs
  | aside _ hsame ih => exact ih.of_same hsame
  | move _ move ih => exact ih.next move

/-- Who was closed is retired, as long as nobody was told too late. -/
theorem retired (hrun : Undergoes s js s') (hs : s.Loyal) (htimely : Timely js)
    (hclosed : ClosedIn key js) : Retired key s' := by
  induction hrun with
  | refl =>
      obtain ⟨j, hj, -⟩ := hclosed
      cases hj
  | aside _ hsame ih => exact (ih htimely hclosed).of_same hsame
  | @move js s₁ hrun move ih =>
      obtain ⟨hquiet, htimely⟩ := htimely
      obtain ⟨j, hj, hcloses⟩ := hclosed
      rcases List.mem_cons.mp hj with rfl | hearlier
      -- it is closed by the last move, whatever it was before
      · obtain ⟨rfl, hkey⟩ := hcloses
        have hr := List.getElem?_eq_getElem hkey
        rw [Move.next, after, closeReflector_some hr]
        exact (hrun.loyal hs).retired hr
      · have hclosed : ClosedIn key js := ⟨j, hearlier, hcloses⟩
        exact (ih htimely hclosed).next (hquiet key hclosed)

/-- Nothing is done to closed reflectors exactly if none of them is told of an edit that it does not
ignore. -/
theorem final_iff (hrun : Undergoes s js s') (hs : s.Loyal) : Final js ↔ Timely js := by
  induction hrun with
  | refl => exact Iff.rfl
  | aside _ _ ih => exact ih
  | @move js s₁ hrun move ih =>
      unfold Final Timely
      rw [ih]
      refine and_congr_left fun htimely => ⟨fun hidle key hclosed hstirs => ?_, ?_⟩
      · have hretired := hrun.retired hs htimely hclosed
        have hkey : move.reflector? = some key := by
          obtain ⟨_, _, _, rfl, -⟩ := hstirs
          rfl
        exact (hretired.idle_iff hkey).mp (hidle key hkey hclosed) hstirs
      · intro hquiet key hkey hclosed
        exact ((hrun.retired hs htimely hclosed).idle_iff hkey).mpr (hquiet key hclosed)

end Undergoes

end Stage

end Cuesheet
