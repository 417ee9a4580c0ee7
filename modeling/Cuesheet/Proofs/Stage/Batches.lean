import Cuesheet.Proofs.Document.Writing
import Cuesheet.Proofs.Stage.Keeping
import Cuesheet.Proofs.Time.Exact
import Cuesheet.Stage.Editing

/-!
# Batches that are all or nothing

A batch that is refused leaves the stage as it was (`patch_refused`). Any other batch that has
patches is *committed*: the edited tree takes the place of the old one, the observers are told
(`patch_committed`), and then the document is written, which may still fail. So a failing batch
has left the document alone and told nobody exactly if the document it leaves can be written, or
nobody observes the document and the batch changed nothing in it (`allOrNothing_iff`).
-/

namespace Cuesheet.Stage

variable {T C W : Type} [TimeScalar T] {react : React T C W} {s s' : Stage T C W} {key : Nat}
  {doc edited : Document} {entries : List Patch.Entry} {enforce : Bool}

/-! ## Documents -/

/-- Who observes a document. -/
def observers (s : Stage T C W) (key : Nat) : List (Observer C) :=
  ((s.documents[key]?).map LiveDocument.observers).getD []

/-- The tree of a document and its prefixes. -/
def content? (s : Stage T C W) (key : Nat) : Option (Xml.Node × Entries String String) :=
  (s.document? key).map fun doc => (doc.tree.root, doc.prefixes)

omit [TimeScalar T] in
theorem withDocument_some (h : s.document? key = some doc)
    (act : Document → Action T C W Unit) : withDocument key act s = act doc s := by
  rw [withDocument, get_bind, h]

omit [TimeScalar T] in
theorem document?_eq_some (h : s.document? key = some doc) :
    ∃ d, s.documents[key]? = some d ∧ d.prefixes = doc.prefixes := by
  unfold document? at h
  cases hd : s.documents[key]? with
  | none => rw [hd] at h; cases h
  | some d =>
      rw [hd] at h
      obtain ⟨live, -, rfl⟩ := Option.map_eq_some_iff.mp h
      exact ⟨d, rfl, rfl⟩

/-! ## Commits -/

/-- The edit that observers are told about when a tree takes the place of another. -/
def rootEdit (doc : Document) : Mutation := { kind := .childList, target := doc.tree.root }

/-- The stage on which an edited document has taken the place of the old one. -/
def committed (s : Stage T C W) (key : Nat) (edited : Document) : Stage T C W :=
  modifyDocument { s with trees := s.trees ++ [{ tree := edited.tree }] } key fun d =>
    { d with tree := s.trees.length, prefixes := d.prefixes.putAll edited.prefixes }

omit [TimeScalar T] in
theorem documents_committed (s : Stage T C W) (key : Nat) (edited : Document) :
    (s.committed key edited).documents[key]? =
      (s.documents[key]?).map fun d =>
        { d with tree := s.trees.length, prefixes := d.prefixes.putAll edited.prefixes } := by
  unfold committed modifyDocument
  rw [List.getElem?_modify_eq]
  rfl

omit [TimeScalar T] in
theorem document?_committed (h : s.document? key = some doc) :
    (s.committed key edited).document? key =
      some { tree := edited.tree, prefixes := doc.prefixes.putAll edited.prefixes } := by
  obtain ⟨d, hd, hprefixes⟩ := document?_eq_some h
  have htree : (s.committed key edited).trees[s.trees.length]? = some { tree := edited.tree } :=
    List.getElem?_concat_length
  unfold document?
  rw [documents_committed, hd]
  dsimp only [Option.map_some]
  rw [htree, ← hprefixes]
  rfl

/-- What a commit tells the observers. -/
def announcing (react : React T C W) (key : Nat) (edited : Document) (s : Stage T C W) :
    Action T C W Unit :=
  noticeEach react s.trees.length (rootEdit edited) (s.observers key)

theorem decodeAll_cons {entry : Patch.Entry} {batch : List (Option Patch)}
    (h : Patch.decodeAll (entry :: entries) = .ok batch) :
    ∃ patch rest, entry.decode = .ok patch ∧ Patch.decodeAll entries = .ok rest ∧
      batch = patch :: rest := by
  rw [Patch.decodeAll] at h
  cases hentry : entry.decode with
  | error fault => rw [hentry] at h; cases h
  | ok patch =>
      cases hrest : Patch.decodeAll entries with
      | error fault => rw [hentry, hrest] at h; cases h
      | ok rest =>
          rw [hentry, hrest] at h
          cases h
          exact ⟨patch, rest, rfl, rfl, rfl⟩

theorem length_decodeAll {batch : List (Option Patch)}
    (h : Patch.decodeAll entries = .ok batch) : batch.length = entries.length := by
  induction entries generalizing batch with
  | nil => cases h; rfl
  | cons entry entries ih =>
      obtain ⟨patch, rest, -, hrest, rfl⟩ := decodeAll_cons h
      exact congrArg (· + 1) (ih hrest)

theorem decodeAll_isEmpty {batch : List (Option Patch)}
    (h : Patch.decodeAll entries = .ok batch) : batch.isEmpty = entries.isEmpty := by
  rw [Bool.eq_iff_iff, List.isEmpty_iff_length_eq_zero, List.isEmpty_iff_length_eq_zero,
    length_decodeAll h]

theorem takeOver_committed (h : s.document? key = some doc) :
    takeOver react key s.trees.length edited.prefixes
        { s with trees := s.trees ++ [{ tree := edited.tree }] } =
      announcing react key edited s (s.committed key edited) := by
  obtain ⟨d, hd, -⟩ := document?_eq_some h
  have hcommitted : (modify fun s' => s'.modifyDocument key fun d =>
      { d with tree := s.trees.length, prefixes := d.prefixes.putAll edited.prefixes } :
        Action T C W Unit) { s with trees := s.trees ++ [{ tree := edited.tree }] } =
      .ok () (s.committed key edited) := rfl
  refine (bind_ok hcommitted _).trans ?_
  rw [withDocument_some (document?_committed h)]
  rw [announce, get_bind]
  unfold announcing observers
  rw [documents_committed, hd]
  rfl

/-! ## What becomes of a batch -/

theorem applyTogether_eq (react : React T C W) (enforce : Bool) (h : s.document? key = some doc)
    (batch : List (Option Patch)) :
    applyTogether react enforce key batch s =
      match Patch.applyAll enforce doc batch with
      | .error fault => .error (.patch fault) s
      | .ok edited =>
        if batch.isEmpty then .ok () s
        else announcing react key edited s (s.committed key edited) := by
  unfold applyTogether
  rw [withDocument_some h]
  cases Patch.applyAll enforce doc batch with
  | error fault => rfl
  | ok edited =>
      cases batch with
      | nil => rfl
      | cons patch rest =>
          refine (bind_ok rfl _).trans ((bind_ok rfl _).trans ?_)
          exact takeOver_committed h

/-- A batch is applied to a copy, which takes the place of the tree if nothing fails; the document
is written in the end. -/
theorem patch_eq (h : s.document? key = some doc) :
    patch react key entries enforce true s =
      match Patch.applyBatch enforce doc entries with
      | .error fault => .error (.patch fault) s
      | .ok edited =>
        if entries.isEmpty then write key s
        else (do announcing react key edited s; write key) (s.committed key edited) := by
  unfold patch Patch.applyBatch
  rw [bind_congr_ok (withDocument_some h _) fun _ _ _ => rfl]
  split
  · exact bind_error rfl _
  · cases hbatch : Patch.decodeAll entries with
    | error fault => exact bind_error rfl _
    | ok batch =>
        have htogether := applyTogether_eq react enforce h batch
        rw [decodeAll_isEmpty hbatch] at htogether
        dsimp only
        cases hall : Patch.applyAll enforce doc batch with
        | error fault =>
            rw [hall] at htogether
            exact bind_error htogether _
        | ok edited =>
            rw [hall] at htogether
            cases hempty : entries.isEmpty with
            | true =>
                rw [hempty] at htogether
                exact bind_ok htogether _
            | false =>
                rw [hempty] at htogether
                exact bind_congr_ok htogether fun _ _ _ => rfl

theorem patch_refused (h : s.document? key = some doc) {fault : PatchFault}
    (hbatch : Patch.applyBatch enforce doc entries = .error fault) :
    patch react key entries enforce true s = .error (.patch fault) s := by
  rw [patch_eq h, hbatch]

theorem patch_committed (h : s.document? key = some doc)
    (hbatch : Patch.applyBatch enforce doc entries = .ok edited) (hsome : entries ≠ []) :
    patch react key entries enforce true s =
      (do announcing react key edited s; write key) (s.committed key edited) := by
  rw [patch_eq h, hbatch]
  exact if_neg (by simpa using hsome)

/-! ## Writing on the stage -/

omit [TimeScalar T] in
theorem write_some (h : s.document? key = some doc) :
    write key s =
      match doc.write s.registry with
      | (registry, .error fault) => .error (.write fault) { s with registry }
      | (registry, .ok text) => .ok text { s with registry } := by
  rw [write, get_bind, h]
  dsimp only
  generalize doc.write s.registry = outcome
  obtain ⟨registry, fault | text⟩ := outcome
  · rfl
  · rfl

omit [TimeScalar T] in
/-- Writing changes nothing but the registered prefixes, and gives a text exactly if the document
can be written. -/
theorem write_spec (key : Nat) (s : Stage T C W) :
    ∃ registry,
      (∃ text, write key s = .ok text { s with registry }) ∧
          (∀ doc, s.document? key = some doc → doc.Writable) ∨
        (∃ fault, write key s = .error fault { s with registry }) ∧
          ∃ doc, s.document? key = some doc ∧ ¬ doc.Writable := by
  cases hdoc : s.document? key with
  | none =>
      refine ⟨s.registry, .inl ⟨⟨"", ?_⟩, nofun⟩⟩
      rw [write, get_bind, hdoc]
      rfl
  | some doc =>
      have hwritable := Document.write_ok_iff s.registry doc
      rw [write_some hdoc]
      cases hwrite : doc.write s.registry with
      | mk registry written =>
          rw [hwrite] at hwritable
          refine ⟨registry, ?_⟩
          cases written with
          | ok text =>
              refine .inl ⟨⟨text, rfl⟩, ?_⟩
              rintro _ ⟨⟩
              exact hwritable.mp ⟨text, rfl⟩
          | error fault =>
              refine .inr ⟨⟨_, rfl⟩, doc, rfl, fun h => ?_⟩
              obtain ⟨text, htext⟩ := hwritable.mpr h
              cases htext

/-! ## Who is told -/

/-- Whom an edit is told to, up to the first who fails. -/
def noticed (react : React T C W) (tree : Nat) (m : Mutation) :
    List (Observer C) → Stage T C W → List (Observer C)
  | [], _ => []
  | observer :: rest, s =>
    observer ::
      match notice react tree m observer s with
      | .ok _ s => noticed react tree m rest s
      | .error _ _ => []

/-- Whom a batch that is all or nothing is told to. -/
def batchNoticed (react : React T C W) (key : Nat) (entries : List Patch.Entry) (enforce : Bool)
    (s : Stage T C W) : List (Observer C) :=
  match s.document? key with
  | none => []
  | some doc =>
    match Patch.applyBatch enforce doc entries with
    | .error _ => []
    | .ok edited =>
      if entries.isEmpty then []
      else noticed react s.trees.length (rootEdit edited) (s.observers key)
        (s.committed key edited)

theorem batchNoticed_eq (h : s.document? key = some doc) :
    batchNoticed react key entries enforce s =
      match Patch.applyBatch enforce doc entries with
      | .error _ => []
      | .ok edited =>
        if entries.isEmpty then []
        else noticed react s.trees.length (rootEdit edited) (s.observers key)
          (s.committed key edited) := by
  unfold batchNoticed
  rw [h]

/-- The callback of an observer that is one. -/
def callback? : Observer C → Option C
  | .reflector _ => none
  | .call c => some c

theorem keeps_request {I : Stage T C W → Prop} (hsource : ∀ s source, I s → I { s with source })
    (task : FrameTask C) : Keeps I (request task) := by
  refine Keeps.get.bind fun s => ?_
  split
  · exact .throw _
  · exact .bind (.change fun s h => hsource s _ h) fun _ => .pure _

/-- A reflector that takes note of an edit changes itself and asks for a frame, and no more. Its
document stays the same. -/
theorem keeps_noteEdit_of_request {I : Stage T C W → Prop} {reflector : Nat}
    (hrequest : Keeps I (request (.flush reflector)))
    (hreflector : ∀ s (f : Reflector C → Reflector C), (∀ r, (f r).document = r.document) →
      I s → I (s.modifyReflector reflector f)) (tree : Nat) (node : Xml.Node) :
    Keeps I (noteEdit reflector tree node) := by
  refine Keeps.get.bind fun s => ?_
  split
  · exact .pure ()
  · split
    · exact .pure ()
    · refine .bind (.change fun s h => hreflector s _ (fun _ => rfl) h) fun _ => ?_
      split
      · exact .pure ()
      · exact .bind hrequest fun _ => .change fun s h => hreflector s _ (fun _ => rfl) h

theorem keeps_noteEdit {I : Stage T C W → Prop} {reflector : Nat}
    (hsource : ∀ s source, I s → I { s with source })
    (hreflector : ∀ s (f : Reflector C → Reflector C), (∀ r, (f r).document = r.document) →
      I s → I (s.modifyReflector reflector f)) (tree : Nat) (node : Xml.Node) :
    Keeps I (noteEdit reflector tree node) :=
  keeps_noteEdit_of_request (keeps_request hsource _) hreflector tree node

theorem after_notice (react : React T C W) (tree : Nat) (m : Mutation) (observer : Observer C)
    (s : Stage T C W) :
    after (notice react tree m observer) s =
      match observer with
      | .reflector key => after (noteEdit key tree (s.currentNode tree m.target)) s
      | .call c =>
        after (react c (.mutation { m with target := s.currentNode tree m.target })) s := by
  cases observer <;> rfl

/-- What callbacks write down that are told about an edit. -/
theorem noticeEach_logged {log : W → List C}
    (hlog : ∀ c m (s : Stage T C W),
      log (after (react c (.mutation m)) s).outside = log s.outside ++ [c])
    (tree : Nat) (m : Mutation) :
    ∀ (observers : List (Observer C)) (s : Stage T C W),
      log (after (noticeEach react tree m observers) s).outside =
        log s.outside ++ (noticed react tree m observers s).filterMap callback?
  | [], s => (List.append_nil _).symm
  | observer :: rest, s => by
      have hfirst : log (after (notice react tree m observer) s).outside =
          log s.outside ++ [observer].filterMap callback? := by
        rw [after_notice]
        cases observer with
        | reflector key =>
            have hsame : (after (noteEdit key tree (s.currentNode tree m.target)) s).outside =
                s.outside :=
              keeps_noteEdit (I := fun s' => s'.outside = s.outside) (fun _ _ h => h)
                (fun _ _ _ h => h) tree _ s rfl
            rw [hsame]
            exact (List.append_nil _).symm
        | call c => exact hlog c _ s
      have hsplit : ∀ told : List (Observer C), (observer :: told).filterMap callback? =
          [observer].filterMap callback? ++ told.filterMap callback? :=
        fun told => List.filterMap_append (l := [observer])
      rw [noticed, hsplit, ← List.append_assoc, ← hfirst]
      cases hnotice : notice react tree m observer s with
      | ok _ s₁ =>
          have heach : noticeEach react tree m (observer :: rest) s =
              noticeEach react tree m rest s₁ := bind_ok hnotice _
          rw [after, heach, after, hnotice]
          exact noticeEach_logged hlog tree m rest s₁
      | error fault s₁ =>
          have heach : noticeEach react tree m (observer :: rest) s = .error fault s₁ :=
            bind_error hnotice _
          rw [after, heach, after, hnotice]
          exact (List.append_nil _).symm

omit [TimeScalar T] in
theorem after_write_outside (key : Nat) (s : Stage T C W) :
    (after (write key) s).outside = s.outside := by
  obtain ⟨registry, ⟨⟨text, hwrite⟩, -⟩ | ⟨⟨fault, hwrite⟩, -⟩⟩ := write_spec key s
  · rw [after, hwrite]; rfl
  · rw [after, hwrite]; rfl

/-- If all callbacks write down that they are told about an edit, then their log says who is told
about a batch. -/
theorem batchNoticed_logged {log : W → List C}
    (hlog : ∀ c m (s : Stage T C W),
      log (after (react c (.mutation m)) s).outside = log s.outside ++ [c])
    (h : s.document? key = some doc) :
    log (after (patch react key entries enforce true) s).outside =
      log s.outside ++ (batchNoticed react key entries enforce s).filterMap callback? := by
  have hnobody : log s.outside = log s.outside ++ List.filterMap callback? [] :=
    (List.append_nil _).symm
  rw [after, patch_eq h, batchNoticed_eq h]
  cases Patch.applyBatch enforce doc entries with
  | error fault => exact hnobody
  | ok edited =>
      dsimp only
      cases entries.isEmpty with
      | true =>
          refine (congrArg log (after_write_outside key s)).trans hnobody
      | false =>
          have hlogged := noticeEach_logged hlog s.trees.length (rootEdit edited)
            (s.observers key) (s.committed key edited)
          refine Eq.trans ?_ hlogged
          rw [if_neg Bool.false_ne_true]
          cases hannounce : announcing react key edited s (s.committed key edited) with
          | error fault s₁ =>
              rw [bind_error hannounce, after, show noticeEach _ _ _ _ _ = _ from hannounce]
              rfl
          | ok _ s₁ =>
              rw [bind_ok hannounce, after, show noticeEach _ _ _ _ _ = _ from hannounce]
              exact congrArg log (after_write_outside key s₁)

/-! ## All or nothing -/

/-- If a batch fails, the document has its tree and its prefixes still, and nobody was told. -/
def AllOrNothing (react : React T C W) (key : Nat) (entries : List Patch.Entry) (enforce : Bool)
    (s : Stage T C W) : Prop :=
  ∀ fault s', patch react key entries enforce true s = .error fault s' →
    s'.content? key = s.content? key ∧ batchNoticed react key entries enforce s = []

/-- The stage on which the observers of a document were told that an edited one took its place. -/
def announced (react : React T C W) (key : Nat) (edited : Document) (s : Stage T C W) :
    Stage T C W :=
  after (announcing react key edited s) (s.committed key edited)

/-- A commit is told to nobody only if nobody observes the document. -/
theorem batchNoticed_eq_nil_iff (h : s.document? key = some doc)
    (hbatch : Patch.applyBatch enforce doc entries = .ok edited) (hsome : entries ≠ []) :
    batchNoticed react key entries enforce s = [] ↔ s.observers key = [] := by
  rw [batchNoticed_eq h, hbatch]
  dsimp only
  rw [if_neg (by simpa using hsome)]
  cases s.observers key with
  | nil => exact ⟨fun _ => rfl, fun _ => rfl⟩
  | cons observer rest => exact ⟨nofun, nofun⟩

theorem announced_nobody (react : React T C W) (h : s.observers key = []) :
    announced react key edited s = s.committed key edited := by
  unfold announced announcing
  rw [h]
  rfl

omit [TimeScalar T] in
theorem content?_after_write {fault : StageFault T} {s s' : Stage T C W}
    (h : write key s = .error fault s') : s'.content? key = s.content? key := by
  obtain ⟨registry, ⟨⟨text, hwrite⟩, -⟩ | ⟨⟨fault', hwrite⟩, -⟩⟩ := write_spec key s
  · rw [hwrite] at h; cases h
  · rw [hwrite] at h; cases h; rfl

/-- A batch that is refused or empty is all or nothing: nothing is committed. -/
theorem allOrNothing_idle (h : s.document? key = some doc)
    (hidle : ∀ edited, Patch.applyBatch enforce doc entries = .ok edited → entries = []) :
    AllOrNothing react key entries enforce s := by
  intro fault s' hfail
  cases hbatch : Patch.applyBatch enforce doc entries with
  | error fault' =>
      rw [patch_refused h hbatch] at hfail
      cases hfail
      exact ⟨rfl, by rw [batchNoticed_eq h, hbatch]⟩
  | ok edited =>
      obtain rfl := hidle edited hbatch
      rw [patch_eq h, hbatch] at hfail
      exact ⟨content?_after_write hfail, by rw [batchNoticed_eq h, hbatch]; rfl⟩

/-- After a commit whose observers do not fail, the document is written. -/
theorem patch_announced (h : s.document? key = some doc)
    (hbatch : Patch.applyBatch enforce doc entries = .ok edited) (hsome : entries ≠ [])
    (hquiet : ∀ fault s', announcing react key edited s (s.committed key edited) ≠
      .error fault s') :
    patch react key entries enforce true s = write key (announced react key edited s) := by
  rw [patch_committed h hbatch hsome]
  cases hannounce : announcing react key edited s (s.committed key edited) with
  | ok _ s₁ => rw [bind_ok hannounce, announced, after, hannounce]; rfl
  | error fault s₁ => exact absurd hannounce (hquiet fault s₁)

/-- With observers that do not fail, a batch is all or nothing exactly if the document that it
leaves can be written, or nobody observes it and nothing in it changes. -/
theorem allOrNothing_iff (h : s.document? key = some doc)
    (hquiet : ∀ edited fault s', Patch.applyBatch enforce doc entries = .ok edited →
      announcing react key edited s (s.committed key edited) ≠ .error fault s') :
    AllOrNothing react key entries enforce s ↔
      ∀ edited, Patch.applyBatch enforce doc entries = .ok edited → entries ≠ [] →
        (∀ written, (announced react key edited s).document? key = some written →
          written.Writable) ∨
        (s.observers key = [] ∧ (s.committed key edited).content? key = s.content? key) := by
  constructor
  · intro hall edited hbatch hsome
    have hrun := patch_announced h hbatch hsome fun fault s' => hquiet edited fault s' hbatch
    obtain ⟨registry, ⟨-, hwritable⟩ | ⟨⟨fault, hwrite⟩, -⟩⟩ :=
      write_spec key (announced react key edited s)
    · exact .inl hwritable
    · obtain ⟨hsame, hnobody⟩ := hall _ _ (hrun.trans hwrite)
      have hobservers := (batchNoticed_eq_nil_iff h hbatch hsome).mp hnobody
      rw [← hsame, ← announced_nobody react hobservers]
      exact .inr ⟨hobservers, (content?_after_write hwrite).symm⟩
  · intro hall
    -- only what is committed can be written in vain
    by_cases hcommit : ∃ edited, Patch.applyBatch enforce doc entries = .ok edited ∧ entries ≠ []
    · obtain ⟨edited, hbatch, hsome⟩ := hcommit
      intro fault s' hfail
      rw [patch_announced h hbatch hsome fun fault s' => hquiet edited fault s' hbatch] at hfail
      obtain hwritable | ⟨hobservers, hsame⟩ := hall edited hbatch hsome
      · obtain ⟨registry, ⟨⟨text, hwrite⟩, -⟩ | ⟨-, doc', hdoc', hnot⟩⟩ :=
          write_spec key (announced react key edited s)
        · rw [hwrite] at hfail; cases hfail
        · exact absurd (hwritable doc' hdoc') hnot
      · refine ⟨(content?_after_write hfail).trans ?_,
          (batchNoticed_eq_nil_iff h hbatch hsome).mpr hobservers⟩
        rw [announced_nobody react hobservers]
        exact hsame
    · exact allOrNothing_idle h fun edited hbatch =>
        Classical.byContradiction fun hsome => hcommit ⟨edited, hbatch, hsome⟩

/-! ## A title that changes -/

/-- Observers that are only counted. -/
def counting : React Rat Unit Nat := fun _ _ => modify fun s => { s with outside := s.outside + 1 }

/-- A document without children, and the namespaces that it names. -/
def titledAs (title : String) (prefixes : Entries String String) : Document where
  tree := .ofNode { name := "vml", attributes := [("id", "r"), ("title", title)] }
  prefixes := prefixes

/-- It is observed under its old title. -/
def titled (prefixes : Entries String String) : Stage Rat Unit Nat where
  source := .manual 0 {}
  trees := [{ tree := (titledAs "old" prefixes).tree }]
  documents := [{ tree := 0, prefixes, observers := [.call ()] }]
  outside := 0

def retitling : List Patch.Entry := [.patch (.setAttr "r" "title" (some "new"))]

/-- After the title has changed, there is nothing to set a text of. -/
def retitlingFurther : List Patch.Entry := retitling ++ [.patch (.setText "nowhere" "")]

theorem counting_quiet (prefixes : Entries String String) (edited : Document)
    (fault : StageFault Rat) (s' : Stage Rat Unit Nat) :
    announcing counting 0 edited (titled prefixes) ((titled prefixes).committed 0 edited) ≠
      .error fault s' := nofun

theorem titledAs_writable (title : String) : (titledAs title []).Writable := by
  refine ⟨nofun, fun name hname rest hopen => ?_⟩
  have hnames : Xml.Labels.names (titledAs title []).tree.root = ["vml", "id", "title"] := rfl
  rw [hnames] at hname
  have hfirst : name.toList.head? = some '\x7b' := by rw [hopen]; rfl
  have hnone : ∀ name ∈ ["vml", "id", "title"], name.toList.head? ≠ some '\x7b' := by decide
  exact absurd hfirst (hnone name hname)

/-- Without namespaces the document can be written, and the batch is all or nothing. One that fails
on its way is so in any case. -/
theorem retitling_whole : AllOrNothing counting 0 retitling false (titled []) ∧
    AllOrNothing counting 0 retitlingFurther false (titled [("urn:x", "ns0")]) := by
  constructor
  · have hbatch : Patch.applyBatch false (titledAs "old" []) retitling =
        .ok (titledAs "new" []) := rfl
    have hdocument : (titled []).document? 0 = some (titledAs "old" []) := rfl
    refine (allOrNothing_iff hdocument
      fun edited fault s' _ => counting_quiet [] edited fault s').mpr fun edited hedited _ => ?_
    rw [hbatch] at hedited
    cases hedited
    refine .inl fun written hwritten => ?_
    cases hwritten
    exact titledAs_writable "new"
  · have hbatch : ∃ fault, Patch.applyBatch false (titledAs "old" [("urn:x", "ns0")])
        retitlingFurther = .error fault := ⟨_, rfl⟩
    have hdocument : (titled [("urn:x", "ns0")]).document? 0 =
        some (titledAs "old" [("urn:x", "ns0")]) := rfl
    refine (allOrNothing_iff hdocument
      fun edited fault s' _ => counting_quiet _ edited fault s').mpr fun edited hedited _ => ?_
    obtain ⟨fault, hrefused⟩ := hbatch
    rw [hrefused] at hedited
    cases hedited

/-- A namespace whose prefix is kept for numbered ones cannot be registered: the title has changed
and the observer was told when the batch fails. -/
theorem retitling_partial :
    ¬ AllOrNothing counting 0 retitling false (titled [("urn:x", "ns0")]) := by
  intro hall
  cases hrun : patch counting 0 retitling false true (titled [("urn:x", "ns0")]) with
  | ok text s' =>
      have hfails : (match patch counting 0 retitling false true (titled [("urn:x", "ns0")]) with
        | .ok _ _ => true
        | .error _ _ => false) = false := by decide +kernel
      rw [hrun] at hfails
      cases hfails
  | error fault s' =>
      have hnobody := (hall fault s' hrun).2
      have htold : (batchNoticed counting 0 retitling false (titled [("urn:x", "ns0")])).isEmpty =
          false := by decide +kernel
      rw [hnobody] at htold
      cases htold

end Cuesheet.Stage
