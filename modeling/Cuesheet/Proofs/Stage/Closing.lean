import Cuesheet.Proofs.Stage.Courses
import Cuesheet.Proofs.Stage.Retiring

/-!
# When closing a reflector is final

Documents are edited, clocks are driven, frames are delivered, and reflectors are made and closed,
in any order (`Errand`), and callbacks do any of this on their own account (`Partakes`). Reflectors
undergo all of it as moves (`Partakes.errand`), so that closing a reflector is final exactly if no
reflector that was closed is told of an edit that it does not ignore (`closing_final_iff`). It is
told if whoever closes it is told of the same edit before it (`quitter_reflected`), and not if it is
the other way round (`reflected_quitter`).
-/

namespace Cuesheet.Stage

open Xml (Node)

variable {T C W : Type} [DecidableEq C] [TimeScalar T] {react : React T C W}
  {s₀ s s' : Stage T C W}

/-! ## What reflectors undergo -/

/-- The stage was reached by what reflectors underwent. -/
def Undergone (s₀ s : Stage T C W) : Prop := ∃ js, Undergoes s₀ js s

/-- What callbacks do to reflectors are moves. -/
def Partakes (react : React T C W) : Prop := ∀ c notice s, Undergone s (after (react c notice) s)

theorem Undergone.aside (h : Undergone s₀ s) (hsame : SameDuties s s') : Undergone s₀ s' := by
  obtain ⟨js, hrun⟩ := h
  exact ⟨js, hrun.aside hsame⟩

/-- What changes neither reflectors nor documents is nothing to reflectors. -/
theorem Undergone.beside (h : Undergone s₀ s) (hreflectors : s'.reflectors = s.reflectors)
    (hdocuments : s'.documents = s.documents) : Undergone s₀ s' :=
  h.aside ⟨hreflectors, fun _ _ => by unfold watches observers; rw [hdocuments]⟩

theorem Undergone.move (h : Undergone s₀ s) (move : Move C) : Undergone s₀ (move.next s) := by
  obtain ⟨js, hrun⟩ := h
  exact ⟨_, hrun.move move⟩

theorem steady_undergone : Steady (Undergone s₀ : Stage T C W → Prop) where
  source _ _ h := h.beside rfl rfl
  clock _ _ _ _ _ _ h := h.beside rfl rfl

omit [DecidableEq C] [TimeScalar T] in
theorem Keeps.withDocument {I : Stage T C W → Prop} {key : Nat}
    {act : Document → Action T C W Unit} (hact : ∀ doc, Keeps I (act doc)) :
    Keeps I (Stage.withDocument key act) := by
  refine .bind .get fun s => ?_
  split
  · exact .pure ()
  · exact hact _

namespace Partakes

variable (h : Partakes react)
include h

theorem keeps (c : C) (notice : Notice T) : Keeps (Undergone s₀) (react c notice) := by
  rintro s ⟨js, hrun⟩
  obtain ⟨later, hlater⟩ := h c notice s
  exact ⟨_, hrun.trans hlater⟩

theorem sheltered : Sheltered react (Undergone s₀) where
  called := h.keeps
  remembered _ _ _ _ hs := hs.beside rfl rfl

/-! ## Edits -/

theorem noticeEach (tree : Nat) (m : Mutation) (observers : List (Observer C)) :
    Keeps (Undergone s₀) (Stage.noticeEach react tree m observers) := by
  induction observers with
  | nil => exact .pure ()
  | cons observer rest ih =>
      refine .bind (.bind .get fun s => ?_) fun _ => ih
      cases observer with
      | reflector key => exact fun s hs => hs.move (.tell key tree _)
      | call c => exact h.keeps c _

theorem announce (key : Nat) (m : Mutation) :
    Keeps (Undergone s₀) (Stage.announce react key m) := by
  refine .bind .get fun s => ?_
  split
  · exact .pure ()
  · exact h.noticeEach _ _ _

theorem commitEdit (key : Nat) (edited : Document × Mutation) :
    Keeps (Undergone s₀) (Stage.commitEdit react key edited) :=
  .bind (.change fun s hs => hs.aside (.storeTree s _ _ _)) fun _ => h.announce key _

theorem takeOver (key tree : Nat) (prefixes : Entries String String) :
    Keeps (Undergone s₀) (Stage.takeOver react key tree prefixes) :=
  .bind (.change fun s hs => hs.aside (.modifyDocument s key fun _ => rfl)) fun _ =>
    .withDocument fun _ => h.announce key _

theorem applyEach (enforce : Bool) (key : Nat) (batch : List (Option Patch)) :
    Keeps (Undergone s₀) (Stage.applyEach react enforce key batch) := by
  induction batch with
  | nil => exact .pure ()
  | cons patch rest ih =>
      refine .bind (.withDocument fun doc => ?_) fun _ => ih
      split
      · exact .throw _
      · exact h.commitEdit key _

theorem applyTogether (enforce : Bool) (key : Nat) (batch : List (Option Patch)) :
    Keeps (Undergone s₀) (Stage.applyTogether react enforce key batch) := by
  refine .withDocument fun doc => ?_
  split
  · exact .throw _
  · split
    · exact .pure ()
    · exact .bind .get fun s =>
        .bind (.change fun s hs => hs.beside rfl rfl) fun _ => h.takeOver key _ _

omit h in
theorem write (key : Nat) : Keeps (Undergone s₀ : Stage T C W → Prop) (Stage.write key) :=
  keeps_write (fun _ _ hs => hs.beside rfl rfl) key

theorem patch (key : Nat) (entries : List Patch.Entry) (enforce atomic : Bool) :
    Keeps (Undergone s₀) (Stage.patch react key entries enforce atomic) := by
  refine .bind (.withDocument fun doc => ?_) fun _ => write key
  split
  · exact .throw _
  · split
    · exact .throw _
    · split
      · exact h.applyTogether enforce key _
      · exact h.applyEach enforce key _

omit h [DecidableEq C] [TimeScalar T] in
theorem readFragment {I : Stage T C W → Prop} (doc : Document) (markup : String) :
    Keeps I (Stage.readFragment doc markup) := by
  unfold Stage.readFragment
  split
  · exact .throw _
  · exact .pure _

theorem revision (key : Nat) (revision : Revision) :
    Keeps (Undergone s₀) (revision.run react key) := by
  cases revision with
  | setAttribute node name value => exact .withDocument fun doc => h.commitEdit key _
  | setText node text => exact .withDocument fun doc => h.commitEdit key _
  | insert parent markup index =>
      exact .withDocument fun doc => .bind (readFragment doc markup) fun _ => h.commitEdit key _
  | remove node =>
      refine .withDocument fun doc => ?_
      split
      · exact .throw _
      · exact h.commitEdit key _
  | replace node markup =>
      refine .withDocument fun doc => .bind (readFragment doc markup) fun _ => ?_
      split
      · exact .throw _
      · exact h.commitEdit key _
  | patches entries enforce atomic =>
      exact .bind (h.patch key entries enforce atomic) fun _ => .pure ()

theorem commit (key other : Nat) : Keeps (Undergone s₀) (Stage.commit react key other) := by
  refine .bind .get fun s => ?_
  split
  · exact .pure ()
  · exact h.takeOver key _ _

/-! ## Flushes -/

theorem handOver (document : Nat) (rebinding : Rebinding C) :
    Keeps (Undergone s₀) (Stage.handOver react document rebinding) := by
  cases rebinding with
  | call c => exact h.keeps c _
  | player key =>
      refine .withDocument fun doc => ?_
      split
      · exact .rebind h.keeps (fun _ _ _ hs => hs.beside rfl rfl)
          (fun _ _ _ hs => hs.beside rfl rfl) key _
      · split
        · exact .withPlayer fun p => .tell (fun c => h.keeps c _) _
        · exact .throw _

theorem handText (key : Nat) : Keeps (Undergone s₀) (Stage.handText react key) := by
  refine .bind .get fun s => ?_
  split
  · exact .pure ()
  · dsimp only
    split
    · exact .pure ()
    · rename_i c _
      split
      · refine .bind (fun s hs => hs.move (.hand key)) fun _ => .bind (write _) fun text => ?_
        exact h.keeps c _
      · exact .pure ()

theorem flush (key : Nat) : Keeps (Undergone s₀) (Stage.flush react key) := by
  intro s hs
  cases hr : s.reflectors[key]? with
  | none =>
      rw [after, flush_missing hr]
      exact hs
  | some r =>
      have hflushing : Undergone s₀ (s.flushing key) := hs.move (.flush key)
      have hr₁ := reflector_modifyReflector hr fun r : Reflector C =>
        { r with handle := none, flushCount := r.flushCount + 1 }
      change Undergone s₀ (after (withReflector key _ >>= fun _ => Stage.handText react key)
        (s.modifyReflector key fun r => { r with handle := none, flushCount := r.flushCount + 1 }))
      refine Leads.bind (I := fun s' => s' = _) (J := Undergone s₀) ?_
        (fun _ => h.handText key) (fun _ hs => hs) _ rfl
      rintro _ rfl
      rw [after, withReflector_some hr₁]
      split
      · exact h.handOver r.document r.rebinding _ hflushing
      -- there was nothing to hand over, and the move has cleared what was clear
      · rename_i hidle
        have hsame : s.flushing key = s.modifyReflector key fun r =>
            { r with handle := none, flushCount := r.flushCount + 1 } :=
          modifyReflector_id hr₁ (by rw [← Bool.eq_false_iff.mpr hidle])
        rw [← hsame]
        exact hflushing

/-! ## Frames -/

theorem runTask (task : FrameTask C) (time : T) :
    Keeps (Undergone s₀) (Stage.runTask react task time) := by
  cases task with
  | tick group => exact steady_undergone.tick h.sheltered.hear group time
  | flush key => exact h.flush key
  | call c => exact h.keeps c _

theorem serve (tasks : List (FrameTask C)) :
    Keeps (Undergone s₀) (Stage.serve react tasks) := by
  induction tasks with
  | nil => exact .pure ()
  | cons task rest ih =>
      refine .bind .get fun s => ?_
      split
      · exact .bind (.pure ()) fun _ => ih
      · exact .bind (h.runTask task _) fun _ => ih

theorem delivered (timestamp : T) (tasks : List (FrameTask C)) (n : Nat)
    (queue : FrameQueue (FrameTask C)) : Keeps (Undergone s₀) (do
      modify fun s => { s with source := .manual timestamp queue }
      Stage.serve react tasks
      return n : Action T C W Nat) :=
  .bind (.change fun _ hs => steady_undergone.source _ _ hs) fun _ =>
    .bind (h.serve tasks) fun _ => .pure n

theorem obey (call : Call T C) : Keeps (Undergone s₀) (Stage.obey react call) := by
  cases call with
  | start group => exact steady_undergone.calm.start group
  | stop group => exact (steady_undergone.calm.stop group).keeps
  | seek group time =>
      refine .bind .get fun s => ?_
      split
      · exact .pure ()
      · split
        · exact .throw _
        · exact .bind (.change fun _ hs => hs.beside rfl rfl) fun _ =>
            .bind (.ofArith _) fun _ => .change fun _ hs => hs.beside rfl rfl
  | subscribe group c => exact .change fun _ hs => hs.beside rfl rfl
  | unsubscribe group c => exact .change fun _ hs => hs.beside rfl rfl
  | step timestamp =>
      cases timestamp with
      | none =>
          refine .bind (.bind .get fun s => ?_) fun _ => .pure ()
          split
          · exact h.delivered _ _ _ _
          · exact .throw _
      | some timestamp =>
          refine .bind (.bind .get fun s => ?_) fun _ => .pure ()
          split
          · split
            · exact .throw _
            · exact h.delivered _ _ _ _
          · exact .throw _

end Partakes

/-! ## Errands -/

/-- What may be done: a document is edited, or takes over the tree of another one; something is done
to a clock, or a frame is delivered; a reflector is made or closed. -/
inductive Errand (T C : Type) where
  | revise (document : Nat) (revision : Revision)
  | commit (document other : Nat)
  | call (call : Call T C)
  | reflect (document : Nat) (rebinding : Rebinding C) (onText : Option C)
  | close (reflector : Nat)

def Errand.run (react : React T C W) : Errand T C → Action T C W Unit
  | revise document revision => revision.run react document
  | commit document other => Stage.commit react document other
  | call c => obey react c
  | reflect document rebinding onText => do
    let _ ← Stage.reflect document rebinding onText
  | close key => closeReflector key

/-- The stage after errands that were run one after the other, whether or not they failed. -/
def Errand.runEach (react : React T C W) : List (Errand T C) → Stage T C W → Stage T C W
  | [], s => s
  | errand :: rest, s => runEach react rest (after (errand.run react) s)

theorem Partakes.errand (h : Partakes react) (errand : Errand T C) :
    Keeps (Undergone s₀) (errand.run react) := by
  cases errand with
  | revise document revision => exact h.revision document revision
  | commit document other => exact h.commit document other
  | call c => exact h.obey c
  | reflect document rebinding onText =>
      refine .bind (fun s hs => ?_) fun _ => .pure ()
      exact hs.move (.make document rebinding onText)
  | close key => exact fun s hs => hs.move (.close key)

theorem Partakes.errands (h : Partakes react) (errands : List (Errand T C)) (hs : Undergone s₀ s) :
    Undergone s₀ (Errand.runEach react errands s) := by
  induction errands generalizing s with
  | nil => exact hs
  | cons errand rest ih => exact ih (h.errand errand s hs)

/-- Whatever is done in whatever order, it happens to reflectors in moves. Nothing is done to a
reflector once it is closed exactly if none that was closed is told of an edit that it does not
ignore; and then it observes nothing and has nothing to do, whenever that was. -/
theorem closing_final_iff (hreact : Partakes react) (hs : s.Loyal) (errands : List (Errand T C)) :
    (∃ js, Undergoes s js (Errand.runEach react errands s)) ∧
      ∀ js, Undergoes s js (Errand.runEach react errands s) → (Final js ↔ Timely js) ∧
        (Final js → ∀ key, ClosedIn key js → Retired key (Errand.runEach react errands s)) := by
  refine ⟨hreact.errands errands ⟨[], .refl⟩, fun js hrun => ?_⟩
  have hiff := hrun.final_iff hs
  exact ⟨hiff, fun hfinal key hclosed => hrun.retired hs (hiff.mp hfinal) hclosed⟩

/-! ## Whoever looks at a document closes its reflector -/

/-- A reflector is closed at the first edit; calls that come of it are counted. -/
def quitting : React Rat Unit Nat
  | _, .mutation _ => closeReflector 0
  | _, _ => modify fun s => { s with outside := s.outside + 1 }

theorem quitting_partakes : Partakes quitting := by
  intro c notice s
  cases notice with
  | mutation m => exact ⟨_, .move .refl (.close 0)⟩
  | _ => exact ⟨[], .aside .refl ⟨rfl, fun _ _ => rfl⟩⟩

/-- A document with its observers, one of which may be a reflector. -/
def observed (observers : List (Observer Unit)) : Stage Rat Unit Nat where
  source := .manual 0 {}
  trees := [{ tree := (titledAs "old" []).tree }]
  documents := [{ tree := 0, prefixes := [], observers }]
  reflectors := [{ document := 0, rebinding := .call (), onText := some () }]
  outside := 0

theorem observed_loyal {observers : List (Observer Unit)} (honce : observers.Nodup)
    (hmem : ∀ key, .reflector key ∈ observers → key = 0) : (observed observers).Loyal := by
  intro document key
  cases document with
  | zero =>
      refine ⟨List.nodup_iff_count_le_one.mp honce _, fun hpos => ?_⟩
      obtain rfl := hmem key (List.count_pos_iff.mp hpos)
      exact ⟨_, rfl, rfl⟩
  | succ document => exact ⟨Nat.zero_le 1, fun hpos => absurd hpos (Nat.lt_irrefl 0)⟩

/-- The document gets a new title. -/
def retitle : Errand Rat Unit :=
  .revise 0 (.setAttribute (titledAs "old" []).tree.root "title" (some "new"))

/-- The stage on which its observers are told. -/
def entitled (observers : List (Observer Unit)) : Stage Rat Unit Nat :=
  (observed observers).storeTree 0 .attributes (titledAs "new" []).tree

/-- They were told, and then a frame was delivered. -/
def delivering (observers : List (Observer Unit)) : Stage Rat Unit Nat :=
  Errand.runEach quitting [retitle, .call (.step none)] (observed observers)

theorem undergoes_entitled (observers : List (Observer Unit)) :
    Undergoes (observed observers) [] (entitled observers) :=
  .aside .refl (.storeTree _ _ _ _)

/-- A reflector that is told of the edit before it is closed forgets it: nobody is called in the
next frame. -/
theorem reflected_quitter : (observed [.reflector 0, .call ()]).Loyal ∧
    (∃ js, Undergoes (observed [.reflector 0, .call ()]) js (delivering [.reflector 0, .call ()]) ∧
      ClosedIn 0 js ∧ Final js) ∧ (delivering [.reflector 0, .call ()]).outside = 0 := by
  have hloyal : (observed [.reflector 0, .call ()]).Loyal :=
    observed_loyal (by decide) (by simp)
  have hrun := ((undergoes_entitled [.reflector 0, .call ()]).move
    (.tell 0 0 (titledAs "new" []).tree.root)).move (.close 0)
  have hdelivered : Undergoes (observed [.reflector 0, .call ()]) _
      (delivering [.reflector 0, .call ()]) := hrun.aside ⟨rfl, fun _ _ => rfl⟩
  refine ⟨hloyal, ⟨_, hdelivered, ⟨_, List.mem_cons_self, rfl, by decide +kernel⟩, ?_⟩,
    by decide +kernel⟩
  refine ((closing_final_iff quitting_partakes hloyal _).2 _ hdelivered).1.mpr ⟨?_, ?_, trivial⟩
  · rintro key - ⟨tree, node, r, hmove, -⟩
    cases hmove
  · rintro key ⟨j, hj, -⟩
    cases hj

/-- If whoever closes it is told before it, then it is told when it is closed already: it asks for a
frame, and hands over the document and its text when that is delivered. -/
theorem quitter_reflected : Partakes quitting ∧ (observed [.call (), .reflector 0]).Loyal ∧
    (∃ js, Undergoes (observed [.call (), .reflector 0]) js
        (Errand.runEach quitting [retitle] (observed [.call (), .reflector 0])) ∧
      ClosedIn 0 js ∧ ¬ Final js) ∧
    (Errand.runEach quitting [retitle]
      (observed [.call (), .reflector 0])).waitingFlushes 0 = 1 ∧
    (delivering [.call (), .reflector 0]).outside = 2 := by
  have hloyal : (observed [.call (), .reflector 0]).Loyal :=
    observed_loyal (by decide) (by simp)
  have hrun : Undergoes (observed [.call (), .reflector 0]) _
      (Errand.runEach quitting [retitle] (observed [.call (), .reflector 0])) :=
    ((undergoes_entitled [.call (), .reflector 0]).move (.close 0)).move
      (.tell 0 0 (titledAs "new" []).tree.root)
  refine ⟨quitting_partakes, hloyal, ⟨_, hrun, ⟨_, .tail _ (.head _), rfl, by decide +kernel⟩, ?_⟩,
    by decide +kernel, by decide +kernel⟩
  intro hfinal
  obtain ⟨hquiet, -⟩ := (hrun.final_iff hloyal).mp hfinal
  refine hquiet 0 ⟨_, List.mem_cons_self, rfl, by decide +kernel⟩ ⟨_, _, _, rfl, rfl, ?_⟩
  decide +kernel

end Cuesheet.Stage
