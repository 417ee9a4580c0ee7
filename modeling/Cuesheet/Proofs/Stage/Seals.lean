import Cuesheet.Proofs.Patch.Sparing
import Cuesheet.Proofs.Stage.Batches

/-!
# Sealed scenes on the stage

Whatever becomes of a batch of patches, the document has been edited by some of its patches, from
the first one on: by all or none of a batch that is all or nothing, else by those before the first
that fails (`patch_leaves`). So with seals enforced the sealed scenes stay that are spared by the
patches that take effect (`sealed_scenes_stay`), whether the batch succeeds or fails.
-/

namespace Cuesheet.Stage

open Xml (Node)

variable {T C W : Type} [TimeScalar T] {react : React T C W} {s s' : Stage T C W} {key : Nat}
  {doc : Document} {entries : List Patch.Entry} {enforce atomic : Bool}

/-! ## Observers that only look -/

/-- Callbacks that are told about an edit leave all documents alone. They may fail. -/
def Onlooking (react : React T C W) : Prop :=
  ∀ c m key doc, Keeps (fun s : Stage T C W => s.document? key = some doc) (react c (.mutation m))

theorem Onlooking.noticeEach (h : Onlooking react) (tree : Nat) (m : Mutation) (key : Nat)
    (doc : Document) (observers : List (Observer C)) :
    Keeps (fun s => s.document? key = some doc) (noticeEach react tree m observers) := by
  induction observers with
  | nil => exact .pure ()
  | cons observer rest ih =>
      refine .bind (.bind .get fun s => ?_) fun _ => ih
      cases observer with
      | reflector reflector => exact keeps_noteEdit (fun _ _ h => h) (fun _ _ _ h => h) tree _
      | call c => exact h c _ key doc

theorem Onlooking.announce (h : Onlooking react) (m : Mutation) (key : Nat) (doc : Document) :
    Keeps (fun s => s.document? key = some doc) (announce react key m) := by
  refine .bind .get fun s => ?_
  split
  · exact .pure ()
  · exact h.noticeEach _ m key doc _

omit [TimeScalar T] in
theorem keeps_write_document (key key' : Nat) (doc : Document) :
    Keeps (fun s : Stage T C W => s.document? key = some doc) (write key') := by
  intro s h
  obtain ⟨registry, ⟨⟨text, hwrite⟩, -⟩ | ⟨⟨fault, hwrite⟩, -⟩⟩ := write_spec key' s
  · rw [after, hwrite]; exact h
  · rw [after, hwrite]; exact h

/-! ## The patches that take effect -/

/-- The patches of a batch before the first that fails. -/
def admitted (enforce : Bool) : Document → List (Option Patch) → List (Option Patch)
  | _, [] => []
  | doc, entry :: rest =>
    match Patch.applyEntry enforce doc entry with
    | .error _ => []
    | .ok (doc, _) => entry :: admitted enforce doc rest

/-- The patches that a batch applies to a document for good. -/
def effective (enforce atomic : Bool) (doc : Document) (entries : List Patch.Entry) :
    List (Option Patch) :=
  if !rootTags.contains doc.rootTag then []
  else
    match Patch.decodeAll entries with
    | .error _ => []
    | .ok batch =>
      match atomic, Patch.applyAll enforce doc batch with
      | true, .error _ => []
      | _, _ => admitted enforce doc batch

/-- A document was edited by some of these patches, one after the other from the first one on. -/
def EditedBy (enforce : Bool) (doc : Document) (batch : List (Option Patch)) (edited : Document) :
    Prop :=
  ∃ front rest, batch = front ++ rest ∧ Patch.applyAll enforce doc front = .ok edited

theorem EditedBy.nothing (doc : Document) (batch : List (Option Patch)) :
    EditedBy enforce doc batch doc := ⟨[], batch, rfl, rfl⟩

theorem EditedBy.all {batch : List (Option Patch)} {edited : Document}
    (h : Patch.applyAll enforce doc batch = .ok edited) : EditedBy enforce doc batch edited :=
  ⟨batch, [], (List.append_nil _).symm, h⟩

theorem EditedBy.cons {entry : Option Patch} {batch : List (Option Patch)} {doc₁ edited : Document}
    {m : Mutation} (happly : Patch.applyEntry enforce doc entry = .ok (doc₁, m))
    (h : EditedBy enforce doc₁ batch edited) : EditedBy enforce doc (entry :: batch) edited := by
  obtain ⟨front, rest, rfl, hfront⟩ := h
  refine ⟨entry :: front, rest, rfl, ?_⟩
  rw [Patch.applyAll, happly]
  exact hfront

/-- If nothing fails, all of a batch is admitted. -/
theorem admitted_of_applyAll {batch : List (Option Patch)} {edited : Document}
    (h : Patch.applyAll enforce doc batch = .ok edited) : admitted enforce doc batch = batch := by
  induction batch generalizing doc with
  | nil => rfl
  | cons entry rest ih =>
      rw [Patch.applyAll] at h
      rw [admitted]
      cases happly : Patch.applyEntry enforce doc entry with
      | error fault => rw [happly] at h; cases h
      | ok result =>
          rw [happly] at h
          exact congrArg (entry :: ·) (ih h)

/-! ## What a batch leaves -/

/-- The document under a key has the tree of one that was edited by some of these patches. -/
def Left (enforce : Bool) (doc : Document) (batch : List (Option Patch)) (key : Nat)
    (s : Stage T C W) : Prop :=
  ∃ edited prefixes, EditedBy enforce doc batch edited ∧
    s.document? key = some { tree := edited.tree, prefixes }

omit [TimeScalar T] in
theorem document?_storeTree (h : s.document? key = some doc) (kind : MutationKind)
    (tree : Xml.Tree) : (s.storeTree key kind tree).document? key = some { doc with tree } := by
  unfold document? at h
  cases hd : s.documents[key]? with
  | none => rw [hd] at h; cases h
  | some d =>
      rw [hd] at h
      obtain ⟨live, hlive, rfl⟩ := Option.map_eq_some_iff.mp h
      unfold storeTree document?
      rw [hd]
      dsimp only
      rw [hd]
      dsimp only
      rw [List.getElem?_modify_eq, hlive]
      rfl

/-- An edit is stored before anybody is told. -/
theorem commitEdit_document (hlook : Onlooking react) (h : s.document? key = some doc)
    (edited : Document × Mutation) :
    (after (commitEdit react key edited) s).document? key =
      some { doc with tree := edited.1.tree } := by
  have hstored : (modify fun s => s.storeTree key edited.2.kind edited.1.tree :
      Action T C W Unit) s = .ok () (s.storeTree key edited.2.kind edited.1.tree) := rfl
  unfold commitEdit after
  rw [bind_ok hstored]
  exact hlook.announce edited.2 key _ _ (document?_storeTree h _ _)

theorem applyEach_cons (h : s.document? key = some doc) (entry : Option Patch)
    (rest : List (Option Patch)) :
    applyEach react enforce key (entry :: rest) s =
      match Patch.applyEntry enforce doc entry with
      | .error fault => .error (.patch fault) s
      | .ok edited => (do commitEdit react key edited; applyEach react enforce key rest) s := by
  rw [applyEach]
  cases happly : Patch.applyEntry enforce doc entry with
  | error fault => exact bind_error ((withDocument_some h _).trans (by rw [happly]; rfl)) _
  | ok edited =>
      exact bind_congr_ok ((withDocument_some h _).trans (by rw [happly])) fun _ _ _ => rfl

/-- A batch that is not all or nothing is applied patch by patch. -/
theorem applyEach_leaves (hlook : Onlooking react) (batch : List (Option Patch))
    (h : s.document? key = some doc) :
    Left enforce doc (admitted enforce doc batch) key
      (after (applyEach react enforce key batch) s) := by
  induction batch generalizing doc s with
  | nil => exact ⟨doc, doc.prefixes, .nothing doc _, h⟩
  | cons entry rest ih =>
      rw [after, applyEach_cons h, admitted]
      cases happly : Patch.applyEntry enforce doc entry with
      | error fault => exact ⟨doc, doc.prefixes, .nothing doc _, h⟩
      | ok edited =>
          obtain ⟨doc₁, m⟩ := edited
          have hstored := commitEdit_document hlook h (doc₁, m)
          have hsame : { doc with tree := doc₁.tree } = doc₁ := by
            cases entry with
            | none => cases happly
            | some patch => rw [← Patch.prefixes_of_apply happly]
          rw [hsame, after] at hstored
          dsimp only
          cases hcommit : commitEdit react key (doc₁, m) s with
          | error fault s₁ =>
              rw [hcommit] at hstored
              rw [bind_error hcommit]
              exact ⟨doc₁, doc₁.prefixes, (EditedBy.nothing doc₁ _).cons happly, hstored⟩
          | ok _ s₁ =>
              rw [hcommit] at hstored
              rw [bind_ok hcommit]
              obtain ⟨edited, prefixes, hedited, hleft⟩ := ih hstored
              exact ⟨edited, prefixes, hedited.cons happly, hleft⟩

omit [TimeScalar T] in
theorem Left.write {batch : List (Option Patch)} {act : Action T C W Unit}
    (h : Left enforce doc batch key (after act s)) :
    Left enforce doc batch key (after (do act; write key) s) := by
  obtain ⟨edited, prefixes, hedited, hdocument⟩ := h
  refine ⟨edited, prefixes, hedited, ?_⟩
  unfold after at hdocument ⊢
  cases hact : act s with
  | error fault s₁ =>
      rw [hact] at hdocument
      rw [bind_error hact]
      exact hdocument
  | ok _ s₁ =>
      rw [hact] at hdocument
      rw [bind_ok hact]
      exact keeps_write_document key key _ s₁ hdocument

/-- Whatever becomes of a batch, the document was edited by some of the patches that take effect,
one after the other from the first one on. -/
theorem patch_leaves (hlook : Onlooking react) (h : s.document? key = some doc) :
    Left enforce doc (effective enforce atomic doc entries) key
      (after (patch react key entries enforce atomic) s) := by
  have hsame : ∀ batch, Left enforce doc batch key s :=
    fun batch => ⟨doc, doc.prefixes, .nothing doc batch, h⟩
  unfold patch
  refine Left.write ?_
  rw [after, withDocument_some h, effective]
  split
  · exact hsame _
  · cases hdecode : Patch.decodeAll entries with
    | error fault => exact hsame _
    | ok batch =>
        cases atomic with
        | false => exact applyEach_leaves hlook batch h
        | true =>
            dsimp only
            rw [if_pos rfl, applyTogether_eq react enforce h]
            cases hall : Patch.applyAll enforce doc batch with
            | error fault => exact hsame _
            | ok edited =>
                dsimp only
                rw [admitted_of_applyAll hall]
                split
                · exact hsame _
                · exact ⟨edited, _, .all hall,
                    hlook.noticeEach _ _ key _ _ _ (document?_committed h)⟩

/-! ## Sealed scenes -/

/-- After a batch with seals enforced, whether it succeeded or failed, a scene is in the document
with nothing else changed in it than that scenes were sealed. -/
def Outlasts (react : React T C W) (key : Nat) (entries : List Patch.Entry) (atomic : Bool)
    (s : Stage T C W) (scene : Node) : Prop :=
  ∃ left, (after (patch react key entries true atomic) s).document? key = some left ∧
    Patch.Stays left scene

/-- A sealed scene outlasts a batch if the patches that take effect spare it: none takes away a
node around it, or is aimed at something in it through another scene that is open. -/
theorem sealed_scene_outlasts (hlook : Onlooking react) (h : s.document? key = some doc)
    (hkeyed : doc.tree.Keyed) {scene : Node} (hscene : Patch.SealedScene doc scene)
    (hspare : Patch.AllSpare doc (effective true atomic doc entries) scene.key) :
    Outlasts react key entries atomic s scene := by
  have hpatched : Left true doc (effective true atomic doc entries) key
      (after (patch react key entries true atomic) s) := patch_leaves hlook h
  obtain ⟨edited, prefixes, ⟨front, rest, hbatch, hfront⟩, hleft⟩ := hpatched
  rw [hbatch] at hspare
  obtain ⟨scene', hscene', hsame⟩ := Patch.stays_of_applyAll hkeyed hscene hspare.front hfront
  exact ⟨_, hleft, scene', ⟨hscene'.inside, hscene'.kind, hscene'.sealed⟩, hsame⟩

/-! ## A sealed scene in a group -/

/-- A sealed scene with a box stands in a group, and a caption beside the group. -/
def grouped : Node :=
  { name := "vml", attributes := [("id", "r")], children := [
    { name := "group", attributes := [("id", "g")], children := [
      { name := "scene", attributes := [("id", "s"), ("sealed", "true")], children := [
        { name := "box", attributes := [("id", "b")] }] }] },
    { name := "caption", attributes := [("id", "c")] }] }

def groupedDocument : Document where
  tree := .ofNode grouped

/-- The scene in it. -/
def groupedScene : Node :=
  { key := 2, name := "scene", attributes := [("id", "s"), ("sealed", "true")], children := [
    { key := 3, name := "box", attributes := [("id", "b")] }] }

def groupedStage : Stage Rat Unit Nat where
  source := .manual 0 {}
  trees := [{ tree := groupedDocument.tree }]
  documents := [{ tree := 0, prefixes := [], observers := [.call ()] }]
  outside := 0

theorem counting_onlooking : Onlooking counting := by
  intro c m key doc s h
  exact h

theorem groupedScene_sealed : Patch.SealedScene groupedDocument groupedScene := by
  refine ⟨?_, rfl, .inl rfl⟩
  exact .child List.mem_cons_self (.child List.mem_cons_self (.self groupedScene))

/-- The caption is marked, and then the box cannot be removed: the batch fails halfway. -/
def marking : List Patch.Entry :=
  [.patch (.setAttr "c" "x" (some "1")), .patch (.removeNode "b")]

theorem marking_spares : Patch.AllSpare groupedDocument
    (effective true false groupedDocument marking) groupedScene.key := by
  have heffective : effective true false groupedDocument marking =
      [some (.setAttr "c" "x" (some "1"))] := by rfl
  rw [heffective]
  intro front patch rest turn scene hbatch hfront hscene hkey
  cases front with
  | cons _ front => cases front <;> cases hbatch
  | nil =>
      cases hbatch
      cases hfront
      obtain rfl := Xml.Node.eq_of_key_eq (Xml.Tree.keyed_ofNode grouped).nodup hscene
        groupedScene_sealed.inside hkey
      refine ⟨nofun, fun target htarget hinside => ?_⟩
      cases htarget
      -- the caption is not in the scene
      have houtside : 4 ∉ groupedScene.keys := by decide
      exact absurd (Xml.Node.mem_keys.mpr ⟨_, hinside, rfl⟩) houtside

/-- The scene outlasts the patch of the caption, and the one of its box that is refused. -/
theorem groupedScene_outlasts :
    Outlasts counting 0 marking false groupedStage groupedScene :=
  sealed_scene_outlasts counting_onlooking rfl (Xml.Tree.keyed_ofNode grouped)
    groupedScene_sealed marking_spares

/-- It does not outlast the group around it. -/
theorem groupedScene_removed : groupedStage.document? 0 = some groupedDocument ∧
    Patch.SealedScene groupedDocument groupedScene ∧
    ¬ Outlasts counting 0 [.patch (.removeNode "g")] true groupedStage groupedScene := by
  refine ⟨rfl, groupedScene_sealed, ?_⟩
  rintro ⟨left, hleft, scene', hscene', hsame⟩
  have hkeys : ((after (patch counting 0 [.patch (.removeNode "g")] true true)
      groupedStage).document? 0).map (fun doc => doc.tree.root.keys) = some [0, 4] := by
    decide +kernel
  rw [hleft] at hkeys
  have hleftKeys : left.tree.root.keys = [0, 4] := Option.some.inj hkeys
  have hmem := Xml.Node.mem_keys.mpr ⟨scene', hscene'.inside, hsame.key_eq⟩
  rw [hleftKeys] at hmem
  exact absurd hmem (by decide)

end Cuesheet.Stage
