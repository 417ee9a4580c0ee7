import Cuesheet.Proofs.Patch.Copies
import Cuesheet.Proofs.Stage.Seals
import Cuesheet.Proofs.Xml.Registering

/-!
# Two ways to apply a batch

A batch that is all or nothing works on a copy, any other one edits the document patch by patch.
With observers that only watch, both come to the same on documents that are the same but for their
keys (`modes_agree`): the same text, or the same fault; the same document if all patches apply. If
one fails, the patches before it stay in the one mode, as if they had been a batch by themselves,
and nothing does in the other. What observers are told differs: one edit of the root, or one edit
for each patch that was applied.
-/

namespace Cuesheet

/-! ## The patch that fails -/

namespace Patch

variable {enforce : Bool} {doc doc' edited left : Document} {entries : List Entry}
  {fault : PatchFault} {batch : List (Option Patch)} {k : Nat}

/-- The patches of a batch for a document. -/
def read (doc : Document) (entries : List Entry) : Except PatchFault (List (Option Patch)) :=
  if !rootTags.contains doc.rootTag then .error .wrongRoot else decodeAll entries

theorem applyBatch_eq (enforce : Bool) (doc : Document) (entries : List Entry) :
    applyBatch enforce doc entries =
      match read doc entries with
      | .error fault => .error fault
      | .ok batch => applyAll enforce doc batch := by
  unfold applyBatch read
  split <;> rfl

theorem read_same (h : doc.Same doc') : read doc entries = read doc' entries := by
  rw [read, read, h.rootTag_eq]

theorem decodeAll_of_read (h : read doc entries = .ok batch) : decodeAll entries = .ok batch := by
  unfold read at h
  split at h
  · cases h
  · exact h

/-- The edits that patches make one after the other, up to the first one that fails. -/
def edits (enforce : Bool) : Document → List (Option Patch) → List Mutation
  | _, [] => []
  | doc, entry :: rest =>
    match applyEntry enforce doc entry with
    | .error _ => []
    | .ok (doc, m) => m :: edits enforce doc rest

/-- The patch with a number fails on what those before it make of a document. -/
structure FailsAt (enforce : Bool) (doc : Document) (batch : List (Option Patch)) (k : Nat)
    (left : Document) (fault : PatchFault) : Prop where
  before : applyAll enforce doc (batch.take k) = .ok left
  fails : ∃ patch, batch[k]? = some patch ∧ applyEntry enforce left patch = .error fault

theorem exists_failsAt (h : applyAll enforce doc batch = .error fault) :
    ∃ k left, FailsAt enforce doc batch k left fault ∧
      Stage.admitted enforce doc batch = batch.take k := by
  induction batch generalizing doc with
  | nil => cases h
  | cons entry rest ih =>
      rw [applyAll] at h
      rw [Stage.admitted]
      cases happly : applyEntry enforce doc entry with
      | error fault' =>
          rw [happly] at h
          cases h
          exact ⟨0, doc, ⟨rfl, entry, rfl, happly⟩, rfl⟩
      | ok edited =>
          rw [happly] at h
          obtain ⟨k, left, ⟨hbefore, hfails⟩, hfront⟩ := ih h
          refine ⟨k + 1, left, ⟨?_, hfails⟩, congrArg (entry :: ·) hfront⟩
          rw [List.take_succ_cons, applyAll, happly]
          exact hbefore

/-- A patch fails alike on documents that are the same but for their keys. -/
theorem FailsAt.same (h : FailsAt enforce doc batch k left fault) (hdoc : doc.tree.Keyed)
    (hdoc' : doc'.tree.Keyed) (hsame : doc.Same doc') :
    ∃ left', FailsAt enforce doc' batch k left' fault ∧ left.Same left' := by
  obtain ⟨hbefore, patch, hpatch, hfails⟩ := h
  have hleft := hbefore ▸ applyAll_same enforce hdoc hdoc' hsame (batch.take k)
  generalize hbefore' : applyAll enforce doc' (batch.take k) = x at hleft
  cases hleft with
  | @given _ left' hleft =>
      have hentry := hfails ▸ applyEntry_same enforce (keyed_of_applyAll hdoc hbefore)
        (keyed_of_applyAll hdoc' hbefore') hleft patch
      generalize hfails' : applyEntry enforce left' patch = y at hentry
      cases hentry
      exact ⟨left', ⟨hbefore', patch, hpatch, hfails'⟩, hleft⟩

theorem FailsAt.length_take (h : FailsAt enforce doc batch k left fault) :
    (batch.take k).length = k := by
  obtain ⟨-, patch, hpatch, -⟩ := h
  have hlt := (List.getElem?_eq_some_iff.mp hpatch).1
  rw [List.length_take, Nat.min_eq_left (Nat.le_of_lt hlt)]

/-- Every patch before the first one that fails makes one edit. -/
theorem length_edits (enforce : Bool) (doc : Document) (batch : List (Option Patch)) :
    (edits enforce doc batch).length = (Stage.admitted enforce doc batch).length := by
  induction batch generalizing doc with
  | nil => rfl
  | cons entry rest ih =>
      rw [edits, Stage.admitted]
      cases applyEntry enforce doc entry with
      | error fault => rfl
      | ok edited => exact congrArg (· + 1) (ih edited.1)

theorem decodeAll_take (h : decodeAll entries = .ok batch) (k : Nat) :
    decodeAll (entries.take k) = .ok (batch.take k) := by
  induction entries generalizing batch k with
  | nil =>
      cases h
      rw [List.take_nil, List.take_nil]
      rfl
  | cons entry rest ih =>
      obtain ⟨patch, more, hentry, hrest, rfl⟩ := Stage.decodeAll_cons h
      cases k with
      | zero => rfl
      | succ k =>
          rw [List.take_succ_cons, List.take_succ_cons, decodeAll, hentry]
          dsimp only
          rw [ih hrest k]
          rfl

theorem applyBatch_take (hread : read doc entries = .ok batch)
    (h : applyAll enforce doc (batch.take k) = .ok left) :
    applyBatch enforce doc (entries.take k) = .ok left := by
  unfold read at hread
  unfold applyBatch
  split at hread
  · cases hread
  · rename_i hroot
    rw [if_neg hroot, decodeAll_take hread k]
    exact h

theorem edited_of_applyEntry {entry : Option Patch} {m : Mutation}
    (h : applyEntry enforce doc entry = .ok (edited, m)) :
    ∃ node f, Edited doc edited m node f := by
  cases entry with
  | none => cases h
  | some patch => exact edited_of_apply h

theorem prefixes_of_applyAll (h : applyAll enforce doc batch = .ok left) :
    left.prefixes = doc.prefixes := by
  induction batch generalizing doc with
  | nil => cases h; rfl
  | cons entry rest ih =>
      rw [applyAll] at h
      cases happly : applyEntry enforce doc entry with
      | error fault => rw [happly] at h; cases h
      | ok edited =>
          rw [happly] at h
          obtain ⟨node, f, hedited⟩ := edited_of_applyEntry happly
          rw [ih h, hedited.prefixes]

theorem prefixes_of_applyBatch (h : applyBatch enforce doc entries = .ok left) :
    left.prefixes = doc.prefixes := by
  rw [applyBatch_eq] at h
  cases hread : read doc entries with
  | error fault => rw [hread] at h; cases h
  | ok batch => rw [hread] at h; exact prefixes_of_applyAll h

theorem applyBatch_nil (h : applyBatch enforce doc [] = .ok left) : left = doc := by
  unfold applyBatch at h
  split at h
  · cases h
  · cases h
    rfl

end Patch

namespace Stage

open Patch (edits FailsAt)

variable {T C W : Type} {react : React T C W} {log : W → List (C × Mutation)}
  {s s' s₁ s₂ : Stage T C W} {key key' : Nat} {d : LiveDocument C}
  {doc doc' edited left : Document}
  {entries : List Patch.Entry} {enforce : Bool} {m : Mutation} {tree : Xml.Tree}
  {prefixes : Entries String String} {observers : List (Observer C)}

/-! ## Observers that watch -/

/-- A document stands on a stage with a tree. -/
structure Holds (key : Nat) (d : LiveDocument C) (tree : Xml.Tree) (s : Stage T C W) : Prop where
  place : s.documents[key]? = some d
  tree : (s.trees[d.tree]?).map LiveTree.tree = some tree

/-- Documents with some prefixes are written alike with either registry. -/
def Alike (prefixes : Entries String String) (registry registry' : Xml.Registry) : Prop :=
  ∀ doc : Document, doc.prefixes = prefixes → (doc.write registry).2 = (doc.write registry').2

/-- Writing a document does not change what documents with its prefixes are written as. -/
theorem alike_write (registry : Xml.Registry) (doc : Document) :
    Alike doc.prefixes registry (doc.write registry).1 := by
  have hregistry : (doc.write registry).1 = (registry.registerAll doc.prefixes).1 := by
    unfold Document.write
    cases registry.registerAll doc.prefixes with
    | mk registered fault => cases fault <;> rfl
  intro other hother
  rw [hregistry, Document.write, Document.write, hother, Xml.Registry.registerAll_again]

/-- The callbacks among observers write down every edit they are told about and do not fail. They
leave a document alone, what documents with its prefixes are written as, and the frame source as far
as it takes requests. To write the document is not too much. -/
structure Watching (react : React T C W) (log : W → List (C × Mutation)) (key : Nat)
    (prefixes : Entries String String) (observers : List (Observer C)) : Prop where
  goes : ∀ c, .call c ∈ observers → ∀ m d tree, Goes (Holds key d tree) (react c (.mutation m))
  source : ∀ c, .call c ∈ observers → ∀ m,
    Keeps (fun s => s.source ≠ .stalled) (react c (.mutation m))
  alike : ∀ c, .call c ∈ observers → ∀ m d tree s, Holds key d tree s → d.prefixes = prefixes →
    Alike prefixes s.registry (after (react c (.mutation m)) s).registry
  logs : ∀ c, .call c ∈ observers → ∀ m s,
    log (after (react c (.mutation m)) s).outside = log s.outside ++ [(c, m)]

theorem Watching.mono (h : Watching react log key prefixes observers) {fewer : List (Observer C)}
    (hfewer : ∀ observer ∈ fewer, observer ∈ observers) :
    Watching react log key prefixes fewer where
  goes c hc := h.goes c (hfewer _ hc)
  source c hc := h.source c (hfewer _ hc)
  alike c hc := h.alike c (hfewer _ hc)
  logs c hc := h.logs c (hfewer _ hc)

/-- Reflectors among the observers of a document can request frames. -/
def Ready (observers : List (Observer C)) (s : Stage T C W) : Prop :=
  ∀ reflector, .reflector reflector ∈ observers → s.source ≠ .stalled

/-- The callbacks among observers, each with an edit. -/
def reports (observers : List (Observer C)) (m : Mutation) : List (C × Mutation) :=
  (observers.filterMap callback?).map fun c => (c, m)

/-- Edits have been told between two stages, and nothing else has happened that shows. -/
structure Told (log : W → List (C × Mutation)) (prefixes : Entries String String)
    (told : List (C × Mutation)) (s s' : Stage T C W) : Prop where
  source : s.source ≠ .stalled → s'.source ≠ .stalled
  alike : Alike prefixes s.registry s'.registry
  log : log s'.outside = log s.outside ++ told

namespace Told

variable {told more : List (C × Mutation)}

theorem nothing (source : s.source ≠ .stalled → s'.source ≠ .stalled)
    (registry : s'.registry = s.registry) (outside : s'.outside = s.outside) :
    Told log prefixes [] s s' where
  source := source
  alike _ _ := by rw [registry]
  log := by rw [outside, List.append_nil]

theorem refl (s : Stage T C W) : Told log prefixes [] s s := nothing id rfl rfl

theorem trans (h : Told log prefixes told s s₁) (h' : Told log prefixes more s₁ s₂) :
    Told log prefixes (told ++ more) s s₂ where
  source hs := h'.source (h.source hs)
  alike doc hdoc := (h.alike doc hdoc).trans (h'.alike doc hdoc)
  log := by rw [h'.log, h.log, List.append_assoc]

theorem ready (h : Told log prefixes told s s') (hs : Ready observers s) : Ready observers s' :=
  fun reflector hmem => h.source (hs reflector hmem)

end Told

theorem Holds.document? (h : Holds key d tree s) :
    s.document? key = some { tree, prefixes := d.prefixes } := by
  obtain ⟨live, hlive, rfl⟩ := Option.map_eq_some_iff.mp h.tree
  rw [Stage.document?, h.place]
  dsimp only
  rw [hlive]
  rfl

theorem Holds.observers_eq (h : Holds key d tree s) : s.observers key = d.observers := by
  rw [Stage.observers, h.place]
  rfl

theorem exists_holds (h : s.document? key = some doc) :
    ∃ d, Holds key d doc.tree s ∧ d.prefixes = doc.prefixes := by
  unfold Stage.document? at h
  cases hd : s.documents[key]? with
  | none => rw [hd] at h; cases h
  | some d =>
      rw [hd] at h
      obtain ⟨live, hlive, rfl⟩ := Option.map_eq_some_iff.mp h
      exact ⟨d, ⟨hd, by rw [hlive]; rfl⟩, rfl⟩

/-- A node of the tree is told as it is. -/
theorem Holds.currentNode (h : Holds key d tree s) (hm : tree.find? m.target.key = some m.target) :
    s.currentNode d.tree m.target = m.target := by
  obtain ⟨live, hlive, rfl⟩ := Option.map_eq_some_iff.mp h.tree
  have hfound : live.find? m.target.key = some m.target := by
    rw [LiveTree.find?, List.findSome?_cons]
    have hpath : (live.tree.root.pathTo? m.target.key).bind List.getLast? = some m.target := hm
    rw [hpath]
  rw [Stage.currentNode, hlive, Option.bind_some, hfound]
  rfl

variable [TimeScalar T]

/-- A reflector takes note of an edit without anybody noticing but the frame source. -/
theorem noteEdit_told (hs : Holds key d tree s) (hsource : s.source ≠ .stalled) (reflector n : Nat)
    (node : Xml.Node) :
    ∃ s', noteEdit reflector n node s = .ok () s' ∧ Holds key d tree s' ∧
      Told log prefixes [] s s' := by
  have hgoes : Goes (fun s' : Stage T C W => s'.source ≠ .stalled ∧
      s'.documents = s.documents ∧ s'.trees = s.trees ∧ s'.registry = s.registry ∧
      s'.outside = s.outside) (noteEdit reflector n node) := by
    refine .bind .get fun s₁ => ?_
    split
    · exact .pure ()
    · split
      · exact .pure ()
      · refine .bind (.change fun _ h => h) fun _ => ?_
        split
        · exact .pure ()
        · exact .bind (.request (fun _ h => h.1) (fun _ _ hsource h => ⟨hsource, h.2⟩) _)
            fun _ => .change fun _ h => h
  obtain ⟨_, s', hrun, hsource', hdocuments, htrees, hregistry, houtside⟩ :=
    hgoes s ⟨hsource, rfl, rfl, rfl, rfl⟩
  refine ⟨s', hrun, ⟨?_, ?_⟩, .nothing (fun _ => hsource') hregistry houtside⟩
  · rw [hdocuments]
    exact hs.place
  · rw [htrees]
    exact hs.tree

theorem notice_told {observer : Observer C}
    (hwatch : Watching react log key prefixes [observer]) (hs : Holds key d tree s)
    (hd : d.prefixes = prefixes) (hm : tree.find? m.target.key = some m.target)
    (hready : Ready [observer] s) :
    ∃ s', notice react d.tree m observer s = .ok () s' ∧ Holds key d tree s' ∧
      Told log prefixes (reports [observer] m) s s' := by
  cases observer with
  | reflector reflector =>
      exact noteEdit_told hs (hready reflector List.mem_cons_self) reflector d.tree _
  | call c =>
      have hmem : Observer.call c ∈ [Observer.call c] := List.mem_cons_self
      have hnotice : notice react d.tree m (.call c) s = react c (.mutation m) s := by
        rw [notice, get_bind, hs.currentNode hm]
      obtain ⟨_, s', hrun, hs'⟩ := hwatch.goes c hmem m d tree s hs
      have halike := hwatch.alike c hmem m d tree s hs hd
      have hlogs := hwatch.logs c hmem m s
      rw [after, hrun] at halike hlogs
      exact ⟨s', hnotice.trans hrun, hs',
        fun hsource => keeps_ok (hwatch.source c hmem m) hsource hrun, halike, hlogs⟩

/-- All observers of a document are told about an edit. -/
theorem noticeEach_told (hwatch : Watching react log key prefixes observers)
    (hs : Holds key d tree s) (hd : d.prefixes = prefixes)
    (hm : tree.find? m.target.key = some m.target) (hready : Ready observers s) :
    ∃ s', noticeEach react d.tree m observers s = .ok () s' ∧ Holds key d tree s' ∧
      Told log prefixes (reports observers m) s s' := by
  induction observers generalizing s with
  | nil => exact ⟨s, rfl, hs, .refl s⟩
  | cons observer rest ih =>
      have hfirst : ∀ o ∈ [observer], o ∈ observer :: rest := fun o ho => by
        rw [List.mem_singleton.mp ho]
        exact List.mem_cons_self
      have hothers : ∀ o ∈ rest, o ∈ observer :: rest := fun _ => List.mem_cons_of_mem _
      obtain ⟨s₁, hrun, hs₁, htold⟩ := notice_told (hwatch.mono hfirst) hs hd hm
        fun reflector hmem => hready reflector (hfirst _ hmem)
      obtain ⟨s₂, hrest, hs₂, hmore⟩ := ih (hwatch.mono hothers) hs₁
        (htold.ready fun reflector hmem => hready reflector (hothers _ hmem))
      refine ⟨s₂, (bind_ok hrun _).trans hrest, hs₂, ?_⟩
      have hsplit : reports (observer :: rest) m = reports [observer] m ++ reports rest m := by
        rw [reports, ← List.singleton_append, List.filterMap_append, List.map_append]
        rfl
      rw [hsplit]
      exact htold.trans hmore

/-! ## Patch by patch -/

omit [TimeScalar T] in
theorem Holds.storeTree (h : Holds key d tree s) (kind : MutationKind) (tree' : Xml.Tree) :
    Holds key d tree' (s.storeTree key kind tree') := by
  obtain ⟨live, hlive, -⟩ := Option.map_eq_some_iff.mp h.tree
  unfold Stage.storeTree
  rw [h.place]
  refine ⟨h.place, ?_⟩
  dsimp only
  rw [List.getElem?_modify_eq, hlive]
  rfl

theorem commitEdit_told (hwatch : Watching react log key prefixes d.observers)
    (hs : Holds key d tree s) (hd : d.prefixes = prefixes)
    (hm : edited.tree.find? m.target.key = some m.target)
    (hready : Ready d.observers s) :
    ∃ s', commitEdit react key (edited, m) s = .ok () s' ∧ Holds key d edited.tree s' ∧
      Told log prefixes (reports d.observers m) s s' := by
  have hstored := hs.storeTree m.kind edited.tree
  have hsame : Told log prefixes [] s (s.storeTree key m.kind edited.tree) := by
    unfold Stage.storeTree
    rw [hs.place]
    exact .nothing id rfl rfl
  obtain ⟨s', hrun, hs', htold⟩ :=
    noticeEach_told hwatch hstored hd hm (hsame.ready hready)
  refine ⟨s', ?_, hs', hsame.trans htold⟩
  refine (modify_bind _ _ s).trans ?_
  rw [announce, get_bind, hstored.place]
  exact hrun

/-- Patches are applied one after the other, and each is told about. -/
theorem applyEach_told (enforce : Bool) (hwatch : Watching react log key prefixes d.observers)
    (batch : List (Option Patch))
    (hs : Holds key d doc.tree s) (hd : d.prefixes = prefixes) (hdoc : doc.prefixes = prefixes)
    (hready : Ready d.observers s) :
    ∃ left s', Patch.applyAll enforce doc (admitted enforce doc batch) = .ok left ∧
      Holds key d left.tree s' ∧
      Told log prefixes ((edits enforce doc batch).flatMap (reports d.observers)) s s' ∧
      applyEach react enforce key batch s =
        match Patch.applyAll enforce doc batch with
        | .error fault => .error (.patch fault) s'
        | .ok _ => .ok () s' := by
  induction batch generalizing doc s with
  | nil => exact ⟨doc, s, rfl, hs, .refl s, rfl⟩
  | cons entry rest ih =>
      have hdocument : s.document? key = some doc := by rw [hs.document?, hd, ← hdoc]
      rw [applyEach_cons hdocument, Patch.applyAll, admitted, edits]
      cases happly : Patch.applyEntry enforce doc entry with
      | error fault => exact ⟨doc, s, rfl, hs, .refl s, rfl⟩
      | ok result =>
          obtain ⟨doc₁, m⟩ := result
          obtain ⟨node, f, hedited⟩ := Patch.edited_of_applyEntry happly
          obtain ⟨s₁, hcommit, hs₁, htold⟩ := commitEdit_told hwatch hs hd hedited.current hready
          have hdoc₁ := hedited.prefixes.trans hdoc
          obtain ⟨left, s₂, hleft, hs₂, hmore, hrest⟩ := ih hs₁ hdoc₁ (htold.ready hready)
          refine ⟨left, s₂, ?_, hs₂, htold.trans hmore, (bind_ok hcommit _).trans hrest⟩
          rw [Patch.applyAll, happly]
          exact hleft

/-! ## All together -/

omit [TimeScalar T] in
theorem holds_committed (hs : Holds key d tree s) :
    Holds key { d with tree := s.trees.length, prefixes := d.prefixes.putAll edited.prefixes }
      edited.tree (s.committed key edited) where
  place := by rw [documents_committed, hs.place]; rfl
  tree := by
    have htree : (s.committed key edited).trees[s.trees.length]? = some { tree := edited.tree } :=
      List.getElem?_concat_length
    rw [htree]
    rfl

/-- The document is committed as a whole, and that is told about once. -/
theorem announcing_told (hwatch : Watching react log key prefixes d.observers)
    (hs : Holds key d tree s) (hd : d.prefixes = prefixes) (hedited : edited.prefixes = prefixes)
    (hprefixes : prefixes.keys.Nodup) (hready : Ready d.observers s) :
    ∃ s', announcing react key edited s (s.committed key edited) = .ok () s' ∧
      s'.document? key = some edited ∧
      Told log prefixes (reports d.observers (rootEdit edited)) s s' := by
  have hsum : d.prefixes.putAll edited.prefixes = prefixes := by
    rw [hd, hedited, Entries.putAll_self hprefixes]
  have hroot : edited.tree.find? (rootEdit edited).target.key = some (rootEdit edited).target := by
    rw [Xml.Tree.find?, rootEdit, Xml.Node.pathTo?_eq, if_pos rfl]
    rfl
  have hsame : Told log prefixes [] s (s.committed key edited) := .nothing id rfl rfl
  obtain ⟨s', hrun, hs', htold⟩ := noticeEach_told hwatch (holds_committed hs) hsum hroot
    (hsame.ready hready)
  refine ⟨s', ?_, ?_, hsame.trans htold⟩
  · rw [announcing, hs.observers_eq]
    exact hrun
  · rw [hs'.document?]
    dsimp only
    rw [hsum, ← hedited]

/-! ## What batches come to -/

/-- What an action returns or fails with. -/
def outcome {α : Type} (r : EStateM.Result (StageFault T) (Stage T C W) α) :
    Except (StageFault T) α :=
  match r with
  | .ok a _ => .ok a
  | .error fault _ => .error fault

/-- The text of a document, or why it cannot be written. -/
def text (doc : Document) (registry : Xml.Registry) : Except (StageFault T) String :=
  (doc.write registry).2.mapError .write

omit [TimeScalar T] in
theorem write_told (hdoc : s'.document? key = some doc) (hprefixes : doc.prefixes = prefixes)
    {told : List (C × Mutation)} (htold : Told log prefixes told s s') :
    outcome (write key s') = text doc s.registry ∧
      (after (write key) s').document? key = some doc ∧
      log (after (write key) s').outside = log s.outside ++ told := by
  refine ⟨?_, keeps_write_document key key doc s' hdoc, ?_⟩
  · rw [write_some hdoc, text, htold.alike doc hprefixes]
    cases doc.write s'.registry with
    | mk registry written => cases written <;> rfl
  · rw [after_write_outside, htold.log]

/-- A batch that is not read changes nothing. -/
theorem patch_unread (react : React T C W) (enforce : Bool) {fault : PatchFault}
    (h : s.document? key = some doc) (hread : Patch.read doc entries = .error fault) (atomic : Bool) :
    patch react key entries enforce atomic s = .error (.patch fault) s := by
  unfold Patch.read at hread
  unfold patch
  rw [bind_congr_ok (withDocument_some h _) fun _ _ _ => rfl]
  split at hread
  · rename_i hroot
    cases hread
    rw [if_pos hroot]
    exact bind_error rfl _
  · rename_i hroot
    rw [if_neg hroot, hread]
    exact bind_error rfl _

/-- What a batch comes to that is all or nothing. -/
theorem patch_together (hwatch : Watching react log key doc.prefixes (s.observers key))
    (h : s.document? key = some doc) (hprefixes : doc.prefixes.keys.Nodup)
    (hready : Ready (s.observers key) s)
    (hbatch : Patch.applyBatch enforce doc entries = .ok edited) :
    outcome (patch react key entries enforce true s) = text edited s.registry ∧
      (after (patch react key entries enforce true) s).document? key = some edited ∧
      log (after (patch react key entries enforce true) s).outside =
        log s.outside ++
          if entries.isEmpty then [] else reports (s.observers key) (rootEdit edited) := by
  obtain ⟨d, hs, hd⟩ := exists_holds h
  have hsame : edited.prefixes = doc.prefixes := Patch.prefixes_of_applyBatch hbatch
  rw [after, patch_eq h, hbatch]
  dsimp only
  cases entries with
  | nil =>
      have hnothing := Patch.applyBatch_nil hbatch
      rw [hnothing]
      exact write_told h rfl (.refl s)
  | cons entry rest =>
      rw [hs.observers_eq] at hwatch hready ⊢
      obtain ⟨s', hrun, hdocument, htold⟩ :=
        announcing_told hwatch hs hd hsame hprefixes hready
      rw [List.isEmpty_cons, if_neg Bool.false_ne_true, if_neg Bool.false_ne_true, bind_ok hrun]
      exact write_told hdocument hsame htold

/-- What a batch comes to that is applied patch by patch. -/
theorem patch_each (enforce : Bool)
    (hwatch : Watching react log key doc.prefixes (s.observers key))
    (h : s.document? key = some doc) (hready : Ready (s.observers key) s)
    {batch : List (Option Patch)} (hread : Patch.read doc entries = .ok batch) :
    ∃ left, Patch.applyAll enforce doc (admitted enforce doc batch) = .ok left ∧
      outcome (patch react key entries enforce false s) =
        (match Patch.applyAll enforce doc batch with
          | .error fault => .error (.patch fault)
          | .ok _ => text left s.registry) ∧
      (after (patch react key entries enforce false) s).document? key = some left ∧
      log (after (patch react key entries enforce false) s).outside =
        log s.outside ++ (edits enforce doc batch).flatMap (reports (s.observers key)) := by
  obtain ⟨d, hs, hd⟩ := exists_holds h
  rw [hs.observers_eq] at hwatch hready ⊢
  obtain ⟨left, s', hleft, hs', htold, hrun⟩ :=
    applyEach_told enforce hwatch batch hs hd rfl hready
  have hsame := Patch.prefixes_of_applyAll hleft
  have hdocument : s'.document? key = some left := by rw [hs'.document?, hd, ← hsame]
  have hpatch : patch react key entries enforce false s =
      (do applyEach react enforce key batch; write key) s := by
    unfold Patch.read at hread
    split at hread
    · cases hread
    · rename_i hroot
      refine bind_congr_ok ((withDocument_some h _).trans ?_) fun _ _ _ => rfl
      rw [if_neg hroot, hread]
      rfl
  refine ⟨left, hleft, ?_⟩
  rw [after, hpatch]
  cases hall : Patch.applyAll enforce doc batch with
  | error fault =>
      rw [hall] at hrun
      rw [bind_error hrun]
      exact ⟨rfl, hdocument, htold.log⟩
  | ok edited =>
      rw [hall] at hrun
      rw [bind_ok hrun]
      exact write_told hdocument hsame htold

/-! ## Both ways agree -/

/-- What both ways to apply a batch come to, for two documents that are the same but for their
keys: one on a stage on which the batch is all or nothing, one on a stage on which it is applied
patch by patch. -/
structure ModesAgree (react : React T C W) (log : W → List (C × Mutation)) (key key' : Nat)
    (entries : List Patch.Entry) (enforce : Bool) (doc doc' : Document) (s s' : Stage T C W) :
    Prop where
  /-- Both return the same text, or fail alike. -/
  outcome : outcome (patch react key entries enforce true s) =
    outcome (patch react key' entries enforce false s')
  /-- If all patches apply, both leave the document that these make. Patch by patch, each has made
  an edit. -/
  applied : ∀ edited, Patch.applyBatch enforce doc entries = .ok edited →
    (after (patch react key entries enforce true) s).document? key = some edited ∧
      ∃ batch edited', Patch.read doc entries = .ok batch ∧
        (after (patch react key' entries enforce false) s').document? key' = some edited' ∧
        edited.Same edited' ∧ (edits enforce doc' batch).length = entries.length
  /-- If not, all or nothing is nothing. Patch by patch, a batch that is not read does nothing
  either; else the patches stay before the one that fails, as if they had been the batch, and each
  of them has made an edit. -/
  refused : ∀ fault, Patch.applyBatch enforce doc entries = .error fault →
    patch react key entries enforce true s = .error (.patch fault) s ∧
      (Patch.read doc entries = .error fault ∧
          patch react key' entries enforce false s' = .error (.patch fault) s' ∨
        ∃ batch k left left', Patch.read doc entries = .ok batch ∧
          FailsAt enforce doc batch k left fault ∧
          (after (patch react key (entries.take k) enforce true) s).document? key = some left ∧
          (after (patch react key' entries enforce false) s').document? key' = some left' ∧
          left.Same left' ∧ (edits enforce doc' batch).length = k)
  /-- All or nothing is told about as one edit of the root, if there is something to tell. -/
  toldOnce : log (after (patch react key entries enforce true) s).outside =
    log s.outside ++
      match Patch.applyBatch enforce doc entries with
      | .error _ => []
      | .ok edited =>
        if entries.isEmpty then [] else reports (s.observers key) (rootEdit edited)
  /-- Patch by patch, every edit is told about, in order. -/
  toldEach : ∀ batch, Patch.read doc entries = .ok batch →
    log (after (patch react key' entries enforce false) s').outside =
      log s'.outside ++ (edits enforce doc' batch).flatMap (reports (s'.observers key'))

namespace ModesAgree

/-- Neither way does anything with a batch that is not read. -/
theorem of_unread {fault : PatchFault} (h : s.document? key = some doc)
    (h' : s'.document? key' = some doc') (hsame : doc.Same doc')
    (hread : Patch.read doc entries = .error fault) :
    ModesAgree react log key key' entries enforce doc doc' s s' := by
  have hbatch : Patch.applyBatch enforce doc entries = .error fault := by
    rw [Patch.applyBatch_eq, hread]
  have hnothing := patch_unread react enforce h hread true
  have hnothing' := patch_unread react enforce h'
    ((Patch.read_same hsame).symm.trans hread) false
  exact {
    outcome := by rw [hnothing, hnothing']; rfl
    applied := by
      intro edited hedited
      rw [hbatch] at hedited
      cases hedited
    refused := by
      intro fault' hfault
      rw [hbatch] at hfault
      cases hfault
      exact ⟨hnothing, .inl ⟨hread, hnothing'⟩⟩
    toldOnce := by rw [hbatch, after, hnothing]; exact (List.append_nil _).symm
    toldEach := by
      intro batch hok
      rw [hread] at hok
      cases hok }

variable {batch : List (Option Patch)} 
  (hwatch : Watching react log key doc.prefixes (s.observers key))
  (hwatch' : Watching react log key' doc'.prefixes (s'.observers key'))
  (h : s.document? key = some doc) (h' : s'.document? key' = some doc') (hdoc : doc.tree.Keyed) (hdoc' : doc'.tree.Keyed)
  (hsame : doc.Same doc') (hprefixes : doc.prefixes.keys.Nodup)
  (hready : Ready (s.observers key) s) (hready' : Ready (s'.observers key') s')
  (hread : Patch.read doc entries = .ok batch)

include hwatch' h' hready' hsame in
omit hread in
theorem told_each (batch' : List (Option Patch)) (hread' : Patch.read doc entries = .ok batch') :
    log (after (patch react key' entries enforce false) s').outside =
      log s'.outside ++ (edits enforce doc' batch').flatMap (reports (s'.observers key')) := by
  rw [Patch.read_same hsame] at hread'
  obtain ⟨left, -, -, -, hlog⟩ := patch_each enforce hwatch' h' hready' hread'
  exact hlog

include hwatch hwatch' h h' hdoc hdoc' hsame hprefixes hready hready' hread

/-- If all patches apply, both ways leave and write the same. -/
theorem of_applied (halike : Alike doc.prefixes s.registry s'.registry)
    (hall : Patch.applyAll enforce doc batch = .ok edited) :
    ModesAgree react log key key' entries enforce doc doc' s s' := by
  have hbatch : Patch.applyBatch enforce doc entries = .ok edited := by
    rw [Patch.applyBatch_eq, hread, ← hall]
  obtain ⟨htext, hcommitted, htold⟩ := patch_together hwatch h hprefixes hready hbatch
  have hread' := (Patch.read_same hsame).symm.trans hread
  obtain ⟨left, hleft, houtcome, hdocument, -⟩ :=
    patch_each enforce hwatch' h' hready' hread'
  have hall' := hall ▸ Patch.applyAll_same enforce hdoc hdoc' hsame batch
  generalize happlied : Patch.applyAll enforce doc' batch = applied at hall'
  cases hall' with
  | @given _ edited' hedited =>
  rw [happlied] at houtcome
  have hlength := Patch.length_edits enforce doc' batch
  rw [admitted_of_applyAll happlied] at hleft hlength
  rw [happlied] at hleft
  cases hleft
  exact {
    outcome := by
      rw [htext, houtcome, text, text, halike edited (Patch.prefixes_of_applyBatch hbatch),
        hedited.write_eq]
    applied := by
      intro edited' hedited'
      rw [hbatch] at hedited'
      cases hedited'
      refine ⟨hcommitted, batch, left, hread, hdocument, hedited, ?_⟩
      rw [hlength, length_decodeAll (Patch.decodeAll_of_read hread)]
    refused := by
      intro fault hfault
      rw [hbatch] at hfault
      cases hfault
    toldOnce := by rw [hbatch]; exact htold
    toldEach := told_each hwatch' h' hsame hready' }

/-- If one fails, the patches before it stay in one way, and none does in the other. -/
theorem of_failed {fault : PatchFault} (hall : Patch.applyAll enforce doc batch = .error fault) :
    ModesAgree react log key key' entries enforce doc doc' s s' := by
  have hbatch : Patch.applyBatch enforce doc entries = .error fault := by
    rw [Patch.applyBatch_eq, hread, ← hall]
  have hrefused : patch react key entries enforce true s = .error (.patch fault) s :=
    patch_refused h hbatch
  have hread' := (Patch.read_same hsame).symm.trans hread
  obtain ⟨left', hleft', houtcome, hdocument, -⟩ :=
    patch_each enforce hwatch' h' hready' hread'
  have hall' := hall ▸ Patch.applyAll_same enforce hdoc hdoc' hsame batch
  generalize happlied : Patch.applyAll enforce doc' batch = applied at hall'
  cases hall'
  rw [happlied] at houtcome
  -- the patch that fails is found where patches are applied one by one
  obtain ⟨k, before, hfails', hfront⟩ := Patch.exists_failsAt happlied
  have hbefore := hfails'.before
  rw [← hfront, hleft'] at hbefore
  cases hbefore
  obtain ⟨left, hfails, hleft⟩ := hfails'.same hdoc' hdoc hsame.symm
  obtain ⟨-, hcommitted, -⟩ :=
    patch_together hwatch h hprefixes hready (Patch.applyBatch_take hread hfails.before)
  have hlength := Patch.length_edits enforce doc' batch
  rw [hfront, hfails.length_take] at hlength
  exact {
    outcome := by rw [hrefused, houtcome]; rfl
    applied := by
      intro edited hedited
      rw [hbatch] at hedited
      cases hedited
    refused := by
      intro fault' hfault
      rw [hbatch] at hfault
      cases hfault
      exact ⟨hrefused, .inr ⟨batch, k, left, left', hread, hfails, hcommitted, hdocument,
        hleft.symm, hlength⟩⟩
    toldOnce := by rw [hbatch, after, hrefused]; exact (List.append_nil _).symm
    toldEach := told_each hwatch' h' hsame hready' }

end ModesAgree

/-- With observers that only watch, both ways to apply a batch agree on documents that are the same
but for their keys. -/
theorem modes_agree (hwatch : Watching react log key doc.prefixes (s.observers key))
    (hwatch' : Watching react log key' doc'.prefixes (s'.observers key'))
    (h : s.document? key = some doc) (h' : s'.document? key' = some doc')
    (hdoc : doc.tree.Keyed) (hdoc' : doc'.tree.Keyed)
    (hsame : doc.Same doc') (hprefixes : doc.prefixes.keys.Nodup)
    (halike : Alike doc.prefixes s.registry s'.registry) (hready : Ready (s.observers key) s)
    (hready' : Ready (s'.observers key') s') :
    ModesAgree react log key key' entries enforce doc doc' s s' := by
  cases hread : Patch.read doc entries with
  | error fault => exact .of_unread h h' hsame hread
  | ok batch =>
      cases hall : Patch.applyAll enforce doc batch with
      | ok edited =>
          exact .of_applied hwatch hwatch' h h' hdoc hdoc' hsame hprefixes hready hready' hread
            halike hall
      | error fault =>
          exact .of_failed hwatch hwatch' h h' hdoc hdoc' hsame hprefixes hready hready' hread hall

/-! ## Observers that write -/

omit [TimeScalar T] in
theorem keeps_write {I : Stage T C W → Prop} (hI : ∀ s registry, I s → I { s with registry })
    (key : Nat) : Keeps I (write key) := by
  intro s h
  obtain ⟨registry, ⟨⟨text, hwrite⟩, -⟩ | ⟨⟨fault, hwrite⟩, -⟩⟩ := write_spec key s
  · rw [after, hwrite]; exact hI s registry h
  · rw [after, hwrite]; exact hI s registry h

omit [TimeScalar T] in
theorem registry_after_write (h : s.document? key = some doc) :
    (after (write key) s).registry = (doc.write s.registry).1 := by
  rw [after, write_some h]
  cases doc.write s.registry with
  | mk registry written => cases written <;> rfl

/-- Observers that write down what they are told, and then write the document. -/
def reporting : React Rat Unit (List (Unit × Mutation)) := fun c notice =>
  match notice with
  | .mutation m => do
    modify fun s => { s with outside := s.outside ++ [(c, m)] }
    attempt do
      let _ ← write 0
  | _ => pure ()

theorem after_reporting (c : Unit) (m : Mutation) (s : Stage Rat Unit (List (Unit × Mutation))) :
    after (reporting c (.mutation m)) s =
      after (write 0) { s with outside := s.outside ++ [(c, m)] } := by
  have hrun : reporting c (.mutation m) s = attempt (do let _ ← write 0)
    { s with outside := s.outside ++ [(c, m)] } := rfl
  rw [after, hrun, after, attempt]
  cases hwrite : write 0 { s with outside := s.outside ++ [(c, m)] } with
  | ok text s' => rw [bind_ok hwrite]; rfl
  | error fault s' => rw [bind_error hwrite]; rfl

/-- To write a document is to watch it. -/
theorem watching_reporting (prefixes : Entries String String)
    (observers : List (Observer Unit)) : Watching reporting id 0 prefixes observers where
  goes c _ m d tree := .bind (.change fun _ h => ⟨h.place, h.tree⟩) fun _ =>
    .attempt ((keeps_write (fun _ _ h => ⟨h.place, h.tree⟩) 0).bind fun _ => .pure ())
  source c _ m := .bind (.change fun _ h => h) fun _ =>
    .attempt ((keeps_write (fun _ _ h => h) 0).bind fun _ => .pure ())
  alike c _ m d tree s h hd := by
    have hs : Holds 0 d tree { s with outside := s.outside ++ [(c, m)] } := ⟨h.place, h.tree⟩
    rw [after_reporting, registry_after_write hs.document?, ← hd]
    exact alike_write s.registry { tree, prefixes := d.prefixes }
  logs c _ m s := by
    rw [after_reporting, after_write_outside]
    rfl

/-- A document like `titledAs "old"`, the root of which has another key. -/
def retold (prefixes : Entries String String) : Document where
  tree :=
    { root := { key := 7, name := "vml", attributes := [("id", "r"), ("title", "old")] }
      nextKey := 8 }
  prefixes := prefixes

/-- A stage with one document, which is observed. -/
def staged (doc : Document) : Stage Rat Unit (List (Unit × Mutation)) where
  source := .manual 0 {}
  trees := [{ tree := doc.tree }]
  documents := [{ tree := 0, prefixes := doc.prefixes, observers := [.call ()] }]
  outside := []

/-- A batch of two patches of which the second fails, with observers that write the document. -/
theorem modes_agree_retitling :
    let doc := titledAs "old" [("urn:x", "x")]
    let doc' := retold [("urn:x", "x")]
    (Watching reporting id 0 doc.prefixes [.call ()] ∧ (staged doc).document? 0 = some doc ∧
      (staged doc').document? 0 = some doc' ∧ doc.tree.Keyed ∧ doc'.tree.Keyed ∧
      doc.Same doc' ∧ doc.prefixes.keys.Nodup) ∧
    ModesAgree reporting id 0 0 retitling true doc doc' (staged doc) (staged doc') ∧
    ModesAgree reporting id 0 0 retitlingFurther true doc doc' (staged doc) (staged doc') := by
  have hwatch := watching_reporting [("urn:x", "x")] [.call ()]
  have hdoc : (titledAs "old" [("urn:x", "x")]).tree.Keyed :=
    Xml.Tree.keyed_ofNode { name := "vml", attributes := [("id", "r"), ("title", "old")] }
  have hdoc' : (retold [("urn:x", "x")]).tree.Keyed := ⟨by decide, by decide⟩
  have hsame : (titledAs "old" [("urn:x", "x")]).Same (retold [("urn:x", "x")]) := ⟨rfl, rfl⟩
  have hkeys : Entries.keys [("urn:x", "x")] |>.Nodup := by decide
  exact ⟨⟨hwatch, rfl, rfl, hdoc, hdoc', hsame, hkeys⟩,
    modes_agree hwatch hwatch rfl rfl hdoc hdoc' hsame hkeys (fun _ _ => rfl) nofun nofun,
    modes_agree hwatch hwatch rfl rfl hdoc hdoc' hsame hkeys (fun _ _ => rfl) nofun nofun⟩

/-! ## Where they do not agree -/

/-- After the title has changed comes what is not the wire form of a patch. -/
def misread : List Patch.Entry := retitling ++ [.wire [("op", .text "bogus")]]

/-- Observers that do something when they are told for the second time. -/
def acting (act : Action Rat Unit Nat Unit) : React Rat Unit Nat := fun c notice => do
  counting c notice
  if (← get).outside = 2 then act

/-- To edit a document in answer to an edit of it. -/
def noting : Action Rat Unit Nat Unit :=
  withDocument 0 fun doc => setAttribute counting 0 doc.tree.root "note" (some "1")

/-- A batch that uses a namespace which the document does not declare, twice. -/
def markingTwice : List Patch.Entry :=
  [.patch (.setAttr "r" "\x7burn:y\x7dmark" (some "1")),
    .patch (.setAttr "r" "\x7burn:y\x7dmark" (some "2"))]

/-- Beside the document stands one that declares the namespace. -/
def beside : Stage Rat Unit Nat :=
  let other := titledAs "other" [("urn:y", "y")]
  { titled [] with
    trees := (titled []).trees ++ [{ tree := other.tree }]
    documents := (titled []).documents ++ [{ tree := 1, prefixes := other.prefixes }] }

/-- The attributes of the root of the document. -/
def rootAttributes? (s : Stage Rat Unit Nat) : Option (Entries String String) :=
  (s.document? 0).map fun doc => doc.tree.root.attributes

/-- The text that an action returns. -/
def text? (r : EStateM.Result (StageFault Rat) (Stage Rat Unit Nat) String) : Option String :=
  match r with
  | .ok text _ => some text
  | .error _ _ => none

/-- The texts that a batch returns: all or nothing, and patch by patch. -/
def texts (react : React Rat Unit Nat) (entries : List Patch.Entry) (s : Stage Rat Unit Nat) :
    Option String × Option String :=
  (text? (patch react 0 entries false true s), text? (patch react 0 entries false false s))

/-- A batch is read before any patch of it is applied: patch by patch, too, nothing comes of the
first one if the second cannot be read. Observers that do not fail are told once in one way and
twice in the other. So the texts are different if they edit the document then, or write another one
that registers a prefix; and if they leave, they are not told about the patches that follow. -/
theorem modes_differ :
    (texts counting misread (titled []) = (none, none) ∧
      rootAttributes? (after (patch counting 0 misread false false) (titled [])) =
        some [("id", "r"), ("title", "old")] ∧
      rootAttributes? (after (patch counting 0 (misread.take 1) false true) (titled [])) =
        some [("id", "r"), ("title", "new")]) ∧
    texts (acting noting) (retitling ++ retitling) (titled []) =
      (some "<vml id=\"r\" title=\"new\" />",
        some "<vml id=\"r\" title=\"new\" note=\"1\" />") ∧
    texts (acting do let _ ← write 1) markingTwice beside =
      (some "<vml xmlns:ns0=\"urn:y\" id=\"r\" title=\"old\" ns0:mark=\"2\" />",
        some "<vml xmlns:y=\"urn:y\" id=\"r\" title=\"old\" y:mark=\"2\" />") ∧
    (after (patch (acting (disconnect 0 (.call ()))) 0 (retitling ++ retitling ++ retitling) false
      false) (titled [])).outside = 2 := by
  decide +kernel

end Stage

end Cuesheet
