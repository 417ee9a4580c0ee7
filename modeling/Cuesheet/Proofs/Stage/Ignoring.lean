import Cuesheet.Proofs.Patch.Aiming
import Cuesheet.Proofs.Stage.Modes
import Cuesheet.Proofs.Stage.Noting

/-!
# Edits of ignored subtrees

A reflector ignores an edit if the node that is named stands in a marked subtree. An edit of a node
below a marked one names such a node (`Aimed.ignored`), and so nothing is reflected of it, nor of
patches that are applied one by one. A batch that is all or nothing names the root, whatever its
patches are aimed at: it is reflected unless the root itself is marked, or all that there is to
note is noted already (`unreflected_iff`).
-/

namespace Cuesheet

open Xml (Node Tree)
open Document (Aimed Edit)

/-! ## Marked nodes -/

/-- A node carries the mark of subtrees that are ignored. -/
def Marked (node : Node) : Prop := node.attribute? ignoreMark = some "true"

/-- A node stands below a marked one. -/
def Hidden (root node : Node) : Prop :=
  ∃ marked, root.Encloses marked ∧ Marked marked ∧ marked.Encloses node ∧ marked ≠ node

section Marked

variable {root node target : Node} {tree : Tree} {doc doc' : Document} {m : Mutation}

theorem isIgnored_iff {nodes : List Node} :
    Stage.isIgnored nodes = true ↔ ∃ node ∈ nodes, Marked node := by
  unfold Stage.isIgnored Marked
  rw [List.any_eq_true]
  simp only [beq_iff_eq]

theorem Hidden.inside (h : Hidden root node) : root.Encloses node := by
  obtain ⟨marked, hinside, -, hbelow, -⟩ := h
  exact hinside.trans hbelow

theorem Hidden.ne_root (h : Hidden root node) : root ≠ node := by
  obtain ⟨marked, hinside, -, hbelow, hne⟩ := h
  rintro rfl
  exact hne (hbelow.antisymm hinside)

/-- The node that is named by an edit below a marked one is ignored. -/
theorem Document.Aimed.ignored (h : Aimed doc doc' m target) (hdoc : doc.tree.Keyed)
    (hdoc' : doc'.tree.Keyed) (htarget : Hidden doc.tree.root target) :
    Stage.isIgnored (doc'.tree.ancestors m.target.key) = true := by
  obtain ⟨marked, hinside, hmarked, hbelow, hne⟩ := htarget
  obtain ⟨marked', named, hinside', hbelow', hkey, -, hattributes⟩ :=
    h.around hdoc hinside hbelow hne
  refine isIgnored_iff.mpr ⟨marked', ?_, ?_⟩
  · rw [← hkey]
    exact (Tree.mem_ancestors hdoc'.nodup (hinside'.trans hbelow')).mpr ⟨hinside', hbelow'⟩
  · unfold Marked Node.attribute?
    rw [hattributes]
    exact hmarked

/-- It leaves the mark of the root as it is. -/
theorem Document.Aimed.marked_root_iff (h : Aimed doc doc' m target) (hdoc : doc.tree.Keyed)
    (hdoc' : doc'.tree.Keyed) (htarget : Hidden doc.tree.root target) :
    Marked doc'.tree.root ↔ Marked doc.tree.root := by
  obtain ⟨root', named, hinside', -, -, hkey, hattributes⟩ :=
    h.around hdoc (.self _) htarget.inside htarget.ne_root
  have hroot : doc'.tree.root.key = doc.tree.root.key := h.root_key
  have hsame : root' = doc'.tree.root :=
    Node.eq_of_key_eq hdoc'.nodup hinside' (.self _) (hkey.trans hroot.symm)
  unfold Marked Node.attribute?
  rw [← hsame, hattributes]

end Marked

namespace Patch

variable {enforce : Bool} {doc doc' : Document} {batch : List (Option Patch)} {m : Mutation}

/-- Every patch of a batch is aimed at a node below a marked one when its turn comes. -/
def AllHidden (enforce : Bool) (doc : Document) (batch : List (Option Patch)) : Prop :=
  ∀ front patch rest turn target, batch = front ++ some patch :: rest →
    applyAll enforce doc front = .ok turn → aim? turn patch = some target →
    Hidden turn.tree.root target

theorem AllHidden.tail {entry : Option Patch} (h : AllHidden enforce doc (entry :: batch))
    (happly : applyEntry enforce doc entry = .ok (doc', m)) : AllHidden enforce doc' batch := by
  intro front patch rest turn target hbatch hfront
  refine h (entry :: front) patch rest turn target (congrArg _ hbatch) ?_
  rw [applyAll, happly]
  exact hfront

theorem AllHidden.head {entry : Option Patch} (h : AllHidden enforce doc (entry :: batch))
    (hdoc : doc.tree.Keyed) (happly : applyEntry enforce doc entry = .ok (doc', m)) :
    ∃ target, Aimed doc doc' m target ∧ Hidden doc.tree.root target := by
  cases entry with
  | none => cases happly
  | some patch =>
      obtain ⟨target, haim, haimed⟩ := aimed_of_patch hdoc happly
      exact ⟨target, haimed, h [] patch batch doc target rfl rfl haim⟩

theorem AllHidden.marked_root_iff (h : AllHidden enforce doc batch) (hdoc : doc.tree.Keyed)
    (happly : applyAll enforce doc batch = .ok doc') :
    Marked doc'.tree.root ↔ Marked doc.tree.root := by
  induction batch generalizing doc with
  | nil =>
      cases happly
      exact Iff.rfl
  | cons entry rest ih =>
      rw [applyAll] at happly
      cases hentry : applyEntry enforce doc entry with
      | error fault => rw [hentry] at happly; cases happly
      | ok edited =>
          rw [hentry] at happly
          have hdoc₁ := keyed_of_applyEntry hdoc hentry
          obtain ⟨target, haimed, hhidden⟩ := h.head hdoc hentry
          exact (ih (h.tail hentry) hdoc₁ happly).trans (haimed.marked_root_iff hdoc hdoc₁ hhidden)

end Patch

/-! ## Requests -/

/-- What is requested of a frame source. -/
def FrameSource.tasks {T A : Type} : FrameSource T A → List A
  | .manual _ queue => queue.tasks
  | .paced _ _ queue => queue.tasks.map Prod.snd
  | .stalled => []

theorem FrameSource.tasks_request? {T A : Type} [TimeScalar T] {source source' : FrameSource T A}
    {a : A} {handle : Nat} (h : source.request? a = some (handle, source')) :
    source'.tasks = source.tasks ++ [a] := by
  cases source with
  | manual now queue =>
      cases h
      exact queue.tasks_request a
  | paced now interval queue =>
      cases h
      exact (congrArg _ (queue.tasks_request _)).trans List.map_append
  | stalled => cases h

/-! ## Reflectors that have nothing to note -/

/-- All that there is to note is noted. -/
structure Reflector.Laden {C : Type} (r : Reflector C) : Prop where
  rebind : r.pendingRebind = true
  text : r.onText.isSome = true → r.pendingText = true
  handle : r.handle.isSome = true

namespace Stage

variable {T C W : Type} {react : React T C W} {reflector key n : Nat} {r : Reflector C}
  {d : LiveDocument C} {tree tree' : Tree} {m : Mutation} {observers : List (Observer C)}
  {s s' : Stage T C W} {doc : Document}

/-- How many frames are requested for the flush of a reflector. -/
def flushRequests (s : Stage T C W) (reflector : Nat) : Nat :=
  s.source.tasks.countP (FrameTask.isFlush reflector)

/-- What a reflector is, and how many frames are requested for it. -/
def Idles (reflector : Nat) (r : Reflector C) (n : Nat) (s : Stage T C W) : Prop :=
  s.reflectors[reflector]? = some r ∧ s.flushRequests reflector = n

/-- A document stands on a stage with a tree, and a reflector as it was. -/
structure Unstirred (key : Nat) (d : LiveDocument C) (tree : Tree) (reflector : Nat)
    (r : Reflector C) (n : Nat) (s : Stage T C W) : Prop where
  holds : Holds key d tree s
  idles : Idles reflector r n s

/-- A callback that is told about an edit leaves the document alone, the reflector, and the frames
that are requested for it. -/
structure Discreet (react : React T C W) (key reflector : Nat) (c : C) : Prop where
  document : ∀ m d tree, Keeps (Holds key d tree) (react c (.mutation m))
  reflector : ∀ m r n, Keeps (Idles reflector r n) (react c (.mutation m))

theorem modifyReflector_id {f : Reflector C → Reflector C} (hr : s.reflectors[reflector]? = some r)
    (hf : f r = r) : s.modifyReflector reflector f = s := by
  rw [modifyReflector, modify_congr_of_getElem? (g := id) hr hf, List.modify_id]

/-- The ancestors of a node of the document decide whether it is ignored. -/
theorem Holds.lineage_eq (hs : Holds key d tree s) {node : Node}
    (hmem : node.key ∈ tree.root.keys) : s.lineage key d.tree node = tree.ancestors node.key := by
  unfold lineage
  rw [hs.place, hs.document?]
  dsimp only
  rw [if_pos rfl]
  split
  · rename_i hnone
    obtain ⟨n, hn, hkey⟩ := Node.mem_keys.mp hmem
    obtain ⟨path, hpath⟩ := Node.pathTo?_isSome hn
    obtain ⟨-, -, front, last, rfl, -⟩ := Node.pathTo?_sound hpath
    rw [Tree.ancestors, ← hkey, hpath] at hnone
    simp at hnone
  · rfl

variable [TimeScalar T]

theorem request_ok {task : FrameTask C} {handle : Nat} (h : request task s = .ok handle s') :
    ∃ source, s.source.request? task = some (handle, source) ∧ s' = { s with source } := by
  rw [request, get_bind] at h
  cases hrequest : s.source.request? task with
  | none => rw [hrequest] at h; cases h
  | some result =>
      rw [hrequest] at h
      cases h
      exact ⟨_, rfl, rfl⟩

theorem request_error {task : FrameTask C} {fault : StageFault T}
    (h : request task s = .error fault s') : s' = s := by
  rw [request, get_bind] at h
  cases hrequest : s.source.request? task with
  | none => rw [hrequest] at h; cases h; rfl
  | some result => rw [hrequest] at h; cases h

theorem request_idles {task : FrameTask C} (h : task.isFlush reflector = false) :
    Keeps (Idles (T := T) (W := W) reflector r n) (request task) := by
  intro s hs
  rw [after]
  cases hrun : request task s with
  | error fault s' =>
      rw [request_error hrun]
      exact hs
  | ok handle s' =>
      obtain ⟨source, hsource, rfl⟩ := request_ok hrun
      refine ⟨hs.1, ?_⟩
      have htasks : source.tasks = s.source.tasks ++ [task] := FrameSource.tasks_request? hsource
      change source.tasks.countP _ = n
      rw [htasks, List.countP_append, List.countP_singleton, h]
      exact hs.2

/-- A reflector that is told of an ignored edit, or has nothing more to note, does nothing. -/
theorem noteEdit_idles {number : Nat} {node : Node} (hr : s.reflectors[reflector]? = some r)
    (h : isIgnored (s.lineage r.document number node) = true ∨ r.Laden) :
    noteEdit reflector number node s = .ok () s := by
  rw [noteEdit, get_bind, hr]
  dsimp only
  split
  · rfl
  · rename_i hcounts
    obtain ⟨hrebind, htext, hhandle⟩ := h.resolve_left hcounts
    have hsame : s.modifyReflector reflector (fun r =>
        { r with pendingRebind := true, pendingText := r.pendingText || r.onText.isSome }) = s := by
      refine modifyReflector_id hr ?_
      have hwanted : (r.pendingText || r.onText.isSome) = r.pendingText := by
        cases hsome : r.onText.isSome with
        | false => rw [Bool.or_false]
        | true => rw [htext hsome, Bool.or_true]
      rw [hwanted, ← hrebind]
    rw [modify_bind, hsame]
    obtain ⟨handle, hhandle⟩ := Option.isSome_iff_exists.mp hhandle
    rw [hhandle]
    rfl

/-- A reflector that is told of an edit that counts has all noted then. -/
theorem noteEdit_laden {number : Nat} {node : Node} (hr : s.reflectors[reflector]? = some r)
    (hcounts : ¬ isIgnored (s.lineage r.document number node) = true)
    (hrun : noteEdit reflector number node s = .ok () s') :
    ∃ r', s'.reflectors[reflector]? = some r' ∧ r'.document = r.document ∧ r'.Laden := by
  have hchanged : ∀ (s : Stage T C W) (f : Reflector C → Reflector C) {r'},
      s.reflectors[reflector]? = some r' →
        (s.modifyReflector reflector f).reflectors[reflector]? = some (f r') :=
    fun s f r' h => by rw [modifyReflector, List.getElem?_modify_eq, h]; rfl
  have htext : r.onText.isSome = true → (r.pendingText || r.onText.isSome) = true :=
    fun h => by rw [h, Bool.or_true]
  rw [noteEdit, get_bind, hr] at hrun
  dsimp only at hrun
  rw [if_neg hcounts, modify_bind] at hrun
  cases hhandle : r.handle with
  | some handle =>
      rw [hhandle] at hrun
      cases hrun
      exact ⟨_, hchanged s _ hr, rfl, rfl, htext, by rw [hhandle]; rfl⟩
  | none =>
      rw [hhandle] at hrun
      obtain ⟨handle, s₁, hrequest, hrest⟩ := ok_of_bind hrun
      obtain ⟨source, -, rfl⟩ := request_ok hrequest
      cases hrest
      exact ⟨_, hchanged _ _ (hchanged s _ hr), rfl, rfl, htext, rfl⟩

/-! ## Tellings -/

section Tellings

variable (hdiscreet : ∀ c, .call c ∈ observers → Discreet react key reflector c)
  (hr : r.document = key) (hm : tree.find? m.target.key = some m.target)
include hdiscreet hr hm

omit hr hm in
theorem notice_other {observer : Observer C} (hmem : observer ∈ observers)
    (hother : observer ≠ .reflector reflector) :
    Keeps (Unstirred key d tree reflector r n) (notice react d.tree m observer) := by
  intro s hs
  rw [after_notice]
  cases observer with
  | call c => exact ⟨(hdiscreet c hmem).document _ d tree s hs.holds,
      (hdiscreet c hmem).reflector _ r n s hs.idles⟩
  | reflector other =>
      have hne : other ≠ reflector := fun h => hother (congrArg Observer.reflector h)
      have hapart : FrameTask.isFlush (C := C) reflector (.flush other) = false :=
        beq_eq_false_iff_ne.mpr hne
      refine ⟨keeps_noteEdit (fun _ _ h => ⟨h.place, h.tree⟩) (fun _ _ _ h => ⟨h.place, h.tree⟩)
        _ _ s hs.holds, ?_⟩
      refine keeps_noteEdit_of_request (request_idles hapart) (fun s f _ h => ⟨?_, h.2⟩) _ _ s
        hs.idles
      exact (modifyReflector_ne hne.symm f).trans h.1

/-- Nobody notes an edit if the node is ignored or all is noted. -/
theorem noticeEach_unstirred
    (h : isIgnored (tree.ancestors m.target.key) = true ∨ r.Laden) :
    Keeps (Unstirred key d tree reflector r n) (noticeEach react d.tree m observers) := by
  induction observers with
  | nil => exact .pure ()
  | cons observer rest ih =>
      refine .bind ?_ fun _ => ih fun c hc => hdiscreet c (List.mem_cons_of_mem _ hc)
      by_cases hown : observer = .reflector reflector
      · subst hown
        intro s hs
        have hmem : m.target.key ∈ tree.root.keys := Tree.mem_keys_of_find? hm
        rw [after_notice]
        dsimp only
        rw [hs.holds.currentNode hm, after, noteEdit_idles hs.idles.1]
        · exact hs
        · rw [hr, hs.holds.lineage_eq hmem]
          exact h
      · exact notice_other hdiscreet List.mem_cons_self hown

/-- If the node is not ignored, and all observers are told, the reflector has all noted then. -/
theorem noticeEach_laden (hmem : .reflector reflector ∈ observers)
    (hcounts : ¬ isIgnored (tree.ancestors m.target.key) = true)
    (hs : Unstirred key d tree reflector r n s)
    (hrun : noticeEach react d.tree m observers s = .ok () s') :
    ∃ r', s'.reflectors[reflector]? = some r' ∧ r'.Laden := by
  induction observers generalizing s with
  | nil => cases hmem
  | cons observer rest ih =>
      have hrest : ∀ c, .call c ∈ rest → Discreet react key reflector c :=
        fun c hc => hdiscreet c (List.mem_cons_of_mem _ hc)
      obtain ⟨_, s₁, hfirst, hlater⟩ := ok_of_bind hrun
      by_cases hown : observer = .reflector reflector
      · subst hown
        rw [notice, get_bind] at hfirst
        dsimp only at hfirst
        rw [hs.holds.currentNode hm] at hfirst
        have hs₁ : Holds key d tree s₁ :=
          keeps_ok (keeps_noteEdit (fun _ _ h => ⟨h.place, h.tree⟩)
            (fun _ _ _ h => ⟨h.place, h.tree⟩) _ _) hs.holds hfirst
        rw [← hs.holds.lineage_eq (Tree.mem_keys_of_find? hm), ← hr] at hcounts
        obtain ⟨r₁, hr₁, hdocument, hladen⟩ := noteEdit_laden hs.idles.1 hcounts hfirst
        have hs' := keeps_ok (noticeEach_unstirred hrest (hdocument.trans hr) hm (.inr hladen))
          ⟨hs₁, hr₁, rfl⟩ hlater
        exact ⟨r₁, hs'.idles.1, hladen⟩
      · have hs₁ := keeps_ok (notice_other hdiscreet List.mem_cons_self hown) hs hfirst
        exact ih hrest ((List.mem_cons.mp hmem).resolve_left fun h => hown h.symm) hs₁ hlater

end Tellings

/-! ## Single edits -/

/-- An edit below a marked node is told to the observers, and the reflector does not stir. -/
theorem commitEdit_unstirred {doc' : Document}
    (hdiscreet : ∀ c, .call c ∈ d.observers → Discreet react key reflector c)
    (hr : r.document = key) (hcurrent : doc'.tree.find? m.target.key = some m.target)
    (hignored : isIgnored (doc'.tree.ancestors m.target.key) = true) :
    Leads (Unstirred key d tree reflector r n) (Unstirred key d doc'.tree reflector r n)
      (commitEdit react key (doc', m)) := by
  intro s hs
  have hstored : Unstirred key d doc'.tree reflector r n
      (s.storeTree key m.kind doc'.tree) := by
    refine ⟨hs.holds.storeTree m.kind doc'.tree, ?_⟩
    unfold storeTree
    rw [hs.holds.place]
    exact hs.idles
  rw [after, commitEdit, modify_bind, announce, get_bind, hstored.holds.place]
  exact noticeEach_unstirred hdiscreet hr hcurrent (.inl hignored) _ hstored

theorem aimed_unstirred {doc' : Document} {target : Node}
    (hdiscreet : ∀ c, .call c ∈ d.observers → Discreet react key reflector c)
    (hr : r.document = key) (hdoc : doc.tree.Keyed) (hdoc' : doc'.tree.Keyed)
    (haimed : Aimed doc doc' m target) (hhidden : Hidden doc.tree.root target) :
    Leads (Unstirred key d doc.tree reflector r n) (Unstirred key d doc'.tree reflector r n)
      (commitEdit react key (doc', m)) := by
  have hignored := haimed.ignored hdoc hdoc' hhidden
  obtain ⟨place, f, hedited, -⟩ := haimed
  exact commitEdit_unstirred hdiscreet hr hedited.current hignored

/-- What may happen to a document: an edit of a node, or a batch of patches. -/
inductive Revision where
  | setAttribute (node : Node) (name : String) (value : Option String)
  | setText (node : Node) (text : String)
  | insert (parent : Node) (markup : String) (index : Option Int)
  | remove (node : Node)
  | replace (node : Node) (markup : String)
  | patches (entries : List Patch.Entry) (enforce atomic : Bool)

namespace Revision

def run (react : React T C W) (key : Nat) : Revision → Action T C W Unit
  | setAttribute node name value => Stage.setAttribute react key node name value
  | setText node text => Stage.setText react key node text
  | insert parent markup index => Stage.insert react key parent markup index
  | remove node => Stage.remove react key node
  | replace node markup => Stage.replace react key node markup
  | patches entries enforce atomic => do
    let _ ← patch react key entries enforce atomic
    pure ()

/-- The node that an edit is aimed at. -/
def target? : Revision → Option Node
  | setAttribute node _ _ => some node
  | setText node _ => some node
  | insert parent _ _ => some parent
  | remove node => some node
  | replace node _ => some node
  | patches _ _ _ => none

/-- All targets are below marked nodes when their turn comes. -/
def Hidden (doc : Document) : Revision → Prop
  | patches entries enforce _ =>
    ∀ batch, Patch.read doc entries = .ok batch → Patch.AllHidden enforce doc batch
  | revision => ∀ target, revision.target? = some target → Cuesheet.Hidden doc.tree.root target

/-- Patches are applied to a copy that takes the place of the tree. -/
def IsTogether : Revision → Prop
  | patches entries _ atomic => atomic = true ∧ entries ≠ []
  | _ => False

variable {revision : Revision} {target : Node}

theorem not_isTogether (h : revision.target? = some target) : ¬ revision.IsTogether := by
  cases revision with
  | patches => cases h
  | _ => exact id

theorem exists_patches (h : revision.target? = none) :
    ∃ entries enforce atomic, revision = patches entries enforce atomic := by
  cases revision with
  | patches entries enforce atomic => exact ⟨entries, enforce, atomic, rfl⟩
  | _ => cases h

theorem hidden_target {doc : Document} (h : revision.target? = some target)
    (hhidden : revision.Hidden doc) : Cuesheet.Hidden doc.tree.root target := by
  cases revision with
  | patches => cases h
  | _ => exact hhidden target h

end Revision

/-- An edit fails before anybody is told, or is committed. -/
theorem run_edit {revision : Revision} {target : Node} (h : s.document? key = some doc)
    (htarget : revision.target? = some target) :
    (∃ fault, revision.run react key s = .error fault s) ∨
      ∃ (e : Edit) (edited : Document × Mutation), e.target = target ∧ e.apply doc = .ok edited ∧
        revision.run react key s = commitEdit react key edited s := by
  have hrun : ∀ act : Document → Action T C W Unit, withDocument key act s = act doc s :=
    withDocument_some h
  cases revision with
  | patches => cases htarget
  | setAttribute node name value =>
      cases htarget
      exact .inr ⟨.setAttribute target name value, _, rfl, rfl, hrun _⟩
  | setText node text =>
      cases htarget
      exact .inr ⟨.setText target text, _, rfl, rfl, hrun _⟩
  | insert parent markup index =>
      cases htarget
      cases hread : Document.fragment doc.prefixes markup with
      | error fault =>
          refine .inl ⟨.markup fault, (hrun _).trans (bind_error ?_ _)⟩
          rw [readFragment, hread]
          rfl
      | ok child =>
          refine .inr ⟨.insert target child index, _, rfl, rfl, (hrun _).trans (bind_ok ?_ _)⟩
          rw [readFragment, hread]
          rfl
  | remove node =>
      cases htarget
      cases hremove : doc.remove target with
      | error fault => exact .inl ⟨.root fault, (hrun _).trans (by rw [hremove]; rfl)⟩
      | ok edited =>
          exact .inr ⟨.remove target, edited, rfl, hremove, (hrun _).trans (by rw [hremove])⟩
  | replace node markup =>
      cases htarget
      cases hread : Document.fragment doc.prefixes markup with
      | error fault =>
          refine .inl ⟨.markup fault, (hrun _).trans (bind_error ?_ _)⟩
          rw [readFragment, hread]
          rfl
      | ok replacement =>
          have hfragment : (readFragment doc markup : Action T C W Node) s = .ok replacement s := by
            rw [readFragment, hread]
            rfl
          cases hreplace : doc.replace target replacement with
          | error fault =>
              refine .inl ⟨.root fault, (hrun _).trans ((bind_ok hfragment _).trans ?_)⟩
              rw [hreplace]
              rfl
          | ok edited =>
              refine .inr ⟨.replace target replacement, edited, rfl, hreplace,
                (hrun _).trans ((bind_ok hfragment _).trans ?_)⟩
              rw [hreplace]

omit [TimeScalar T] in
theorem Holds.document?_eq (hs : Holds key d doc.tree s) (hprefixes : d.prefixes = doc.prefixes) :
    s.document? key = some doc := by
  rw [hs.document?, hprefixes]

/-- An edit below a marked node is not noted. -/
theorem edit_idles {revision : Revision} {target : Node}
    (hdiscreet : ∀ c, .call c ∈ d.observers → Discreet react key reflector c)
    (hr : r.document = key) (hdoc : doc.tree.Keyed) (hprefixes : d.prefixes = doc.prefixes)
    (htarget : revision.target? = some target) (hhidden : revision.Hidden doc)
    (hs : Unstirred key d doc.tree reflector r n s) :
    Idles reflector r n (after (revision.run react key) s) := by
  obtain ⟨fault, hrun⟩ | ⟨e, edited, rfl, hedit, hrun⟩ :=
    run_edit (hs.holds.document?_eq hprefixes) htarget
  · rw [after, hrun]
    exact hs.idles
  · have hbelow := Revision.hidden_target htarget hhidden
    obtain ⟨haimed, hdoc'⟩ := Document.aimed_of_edit hdoc hbelow.inside hedit
    rw [after, hrun]
    exact (aimed_unstirred hdiscreet hr hdoc hdoc' haimed hbelow s hs).idles

/-! ## Patches one by one -/

theorem applyEach_idles {enforce : Bool} {batch : List (Option Patch)}
    (hdiscreet : ∀ c, .call c ∈ d.observers → Discreet react key reflector c)
    (hr : r.document = key) (hdoc : doc.tree.Keyed) (hprefixes : d.prefixes = doc.prefixes)
    (hhidden : Patch.AllHidden enforce doc batch)
    (hs : Unstirred key d doc.tree reflector r n s) :
    Idles reflector r n (after (applyEach react enforce key batch) s) := by
  induction batch generalizing doc s with
  | nil => exact hs.idles
  | cons entry rest ih =>
      rw [after, applyEach_cons (hs.holds.document?_eq hprefixes)]
      cases happly : Patch.applyEntry enforce doc entry with
      | error fault => exact hs.idles
      | ok edited =>
          obtain ⟨doc₁, m⟩ := edited
          have hdoc₁ := Patch.keyed_of_applyEntry hdoc happly
          obtain ⟨target, haimed, htarget⟩ := hhidden.head hdoc happly
          have hs₁ := aimed_unstirred hdiscreet hr hdoc hdoc₁ haimed htarget s hs
          obtain ⟨place, f, hedited, -⟩ := haimed
          rw [after] at hs₁
          dsimp only
          cases hcommit : commitEdit react key (doc₁, m) s with
          | error fault s₁ =>
              rw [hcommit] at hs₁
              rw [bind_error hcommit]
              exact hs₁.idles
          | ok _ s₁ =>
              rw [hcommit] at hs₁
              rw [bind_ok hcommit]
              exact ih hdoc₁ (hprefixes.trans hedited.prefixes.symm) (hhidden.tail happly) hs₁

/-! ## Batches -/

omit [TimeScalar T] in
theorem write_idles (key : Nat) :
    Keeps (Idles (T := T) (C := C) (W := W) reflector r n) (write key) := by
  intro s hs
  obtain ⟨registry, ⟨⟨text, hwrite⟩, -⟩ | ⟨⟨fault, hwrite⟩, -⟩⟩ := write_spec key s
  · rw [after, hwrite]
    exact hs
  · rw [after, hwrite]
    exact hs

theorem patch_each_idles {entries : List Patch.Entry} {enforce : Bool}
    (hdiscreet : ∀ c, .call c ∈ d.observers → Discreet react key reflector c)
    (hr : r.document = key) (hdoc : doc.tree.Keyed) (hprefixes : d.prefixes = doc.prefixes)
    (hhidden : (Revision.patches entries enforce false).Hidden doc)
    (hs : Unstirred key d doc.tree reflector r n s) :
    Idles reflector r n (after (patch react key entries enforce false) s) := by
  unfold patch
  refine Leads.bind (I := fun s' => s' = s) (J := Idles reflector r n) ?_ (fun _ => write_idles key)
    (fun _ h => h) s rfl
  rintro _ rfl
  rw [after, withDocument_some (hs.holds.document?_eq hprefixes)]
  split
  · exact hs.idles
  · rename_i hroot
    cases hdecode : Patch.decodeAll entries with
    | error fault => exact hs.idles
    | ok batch =>
        refine applyEach_idles hdiscreet hr hdoc hprefixes (hhidden batch ?_) hs
        rw [Patch.read, if_neg hroot, hdecode]

/-- Who is told of a batch that is all or nothing is told of the root. -/
theorem patch_together_cases {entries : List Patch.Entry} {enforce : Bool}
    (hdiscreet : ∀ c, .call c ∈ d.observers → Discreet react key reflector c)
    (hr : r.document = key) (hopen : .reflector reflector ∈ d.observers) (hdoc : doc.tree.Keyed)
    (hprefixes : d.prefixes = doc.prefixes)
    (hhidden : (Revision.patches entries enforce true).Hidden doc)
    (hs : Unstirred key d doc.tree reflector r n s) (hsome : entries ≠ [])
    (hok : isOk (patch react key entries enforce true s) = true) :
    (Marked doc.tree.root ∨ r.Laden →
      Idles reflector r n (after (patch react key entries enforce true) s)) ∧
    (¬ Marked doc.tree.root → ∃ r',
      (after (patch react key entries enforce true) s).reflectors[reflector]? = some r' ∧
        r'.Laden) := by
  have hdocument := hs.holds.document?_eq hprefixes
  cases hbatch : Patch.applyBatch enforce doc entries with
  | error fault =>
      rw [patch_refused hdocument hbatch] at hok
      cases hok
  | ok edited =>
      have hpatch : patch react key entries enforce true s = _ :=
        patch_committed hdocument hbatch hsome
      rw [after, hpatch]
      rw [hpatch] at hok
      have hmarked : Marked edited.tree.root ↔ Marked doc.tree.root := by
        rw [Patch.applyBatch_eq] at hbatch
        cases hread : Patch.read doc entries with
        | error fault => rw [hread] at hbatch; cases hbatch
        | ok batch =>
            rw [hread] at hbatch
            exact (hhidden batch hread).marked_root_iff hdoc hbatch
      obtain ⟨hroot, hancestors⟩ := edited.tree.find?_root
      have hignored : isIgnored (edited.tree.ancestors (rootEdit edited).target.key) = true ↔
          Marked doc.tree.root := by
        rw [← hmarked, rootEdit, hancestors, isIgnored_iff]
        simp only [List.mem_singleton, exists_eq_left]
      have hcommitted : Unstirred key _ edited.tree reflector r n (s.committed key edited) :=
        ⟨holds_committed hs.holds, hs.idles⟩
      rw [announcing, hs.holds.observers_eq] at hok ⊢
      constructor
      · intro hquiet
        refine Leads.bind (J := Idles reflector r n) (fun s h => ?_) (fun _ => write_idles key)
          (fun _ h => h) _ hcommitted
        exact (noticeEach_unstirred hdiscreet hr hroot (hquiet.imp_left hignored.mpr) s h).idles
      · intro hunmarked
        cases hrun : noticeEach react s.trees.length (rootEdit edited) d.observers
            (s.committed key edited) with
        | error fault s₁ =>
            rw [bind_error hrun] at hok
            cases hok
        | ok _ s₁ =>
            obtain ⟨r', hr', hladen⟩ := noticeEach_laden hdiscreet hr hroot hopen
              (fun h => hunmarked (hignored.mp h)) hcommitted hrun
            rw [bind_ok hrun]
            exact ⟨r', (write_idles key s₁ ⟨hr', rfl⟩).1, hladen⟩

/-! ## What is reflected -/

/-- A reflector has noted nothing between two stages, and asked for no frame. -/
def Unreflected (reflector : Nat) (s s' : Stage T C W) : Prop :=
  s'.reflectors[reflector]? = s.reflectors[reflector]? ∧
    s'.flushRequests reflector = s.flushRequests reflector

theorem run_patches (react : React T C W) (key : Nat) (entries : List Patch.Entry)
    (enforce atomic : Bool) (s : Stage T C W) :
    after ((Revision.patches entries enforce atomic).run react key) s =
        after (patch react key entries enforce atomic) s ∧
      isOk ((Revision.patches entries enforce atomic).run react key s) =
        isOk (patch react key entries enforce atomic s) := by
  have hrun : (Revision.patches entries enforce atomic).run react key s =
      (patch react key entries enforce atomic >>= fun _ => pure ()) s := rfl
  unfold after
  rw [hrun]
  cases hpatch : patch react key entries enforce atomic s with
  | ok text s₁ => rw [bind_ok hpatch]; exact ⟨rfl, rfl⟩
  | error fault s₁ => rw [bind_error hpatch]; exact ⟨rfl, rfl⟩

/-- Edits below marked nodes, and batches of them that succeed, are not reflected, exactly if they
are not committed as one change of the root. If they are, they are reflected unless the root is
marked itself, or the reflector has noted already all that there is to note. -/
theorem unreflected_iff {revision : Revision} (hdoc : s.document? key = some doc)
    (hkeyed : doc.tree.Keyed) (hd : s.documents[key]? = some d)
    (hr : s.reflectors[reflector]? = some r) (hdocument : r.document = key)
    (hopen : .reflector reflector ∈ d.observers)
    (hdiscreet : ∀ c, .call c ∈ d.observers → Discreet react key reflector c)
    (hhidden : revision.Hidden doc)
    (hdone : revision.target? = none → isOk (revision.run react key s) = true) :
    Unreflected reflector s (after (revision.run react key) s) ↔
      ¬ revision.IsTogether ∨ Marked doc.tree.root ∨ r.Laden := by
  obtain ⟨_, hholds, hprefixes⟩ := exists_holds hdoc
  obtain rfl := Option.some.inj (hholds.place.symm.trans hd)
  have hs : Unstirred key _ doc.tree reflector r (s.flushRequests reflector) s := ⟨hholds, hr, rfl⟩
  have hidles : ∀ {s'}, Idles reflector r (s.flushRequests reflector) s' →
      Unreflected reflector s s' := fun h => ⟨h.1.trans hr.symm, h.2⟩
  cases htarget : revision.target? with
  | some target =>
      refine iff_of_true (hidles ?_) (.inl (Revision.not_isTogether htarget))
      exact edit_idles hdiscreet hdocument hkeyed hprefixes htarget hhidden hs
  | none =>
      obtain ⟨entries, enforce, atomic, rfl⟩ := Revision.exists_patches htarget
      obtain ⟨hafter, hok⟩ := run_patches react key entries enforce atomic s
      have hpatched := hok.symm.trans (hdone rfl)
      rw [hafter]
      cases atomic with
      | false =>
          have heach := patch_each_idles hdiscreet hdocument hkeyed hprefixes hhidden hs
          exact iff_of_true (hidles heach) (.inl fun h => nomatch h.1)
      | true =>
          by_cases hsome : entries = []
          · subst hsome
            refine iff_of_true (hidles ?_) (.inl fun h => h.2 rfl)
            rw [after, patch_eq hdoc]
            cases Patch.applyBatch enforce doc [] with
            | error fault => exact hs.idles
            | ok edited => exact write_idles key s hs.idles
          · obtain ⟨hquiet, hnoted⟩ := patch_together_cases hdiscreet hdocument hopen hkeyed
              hprefixes hhidden hs hsome hpatched
            refine ⟨fun hsame => .inr ?_, fun h => hidles (hquiet ?_)⟩
            · by_cases hmarked : Marked doc.tree.root
              · exact .inl hmarked
              · obtain ⟨r', hr', hladen⟩ := hnoted hmarked
                obtain rfl := Option.some.inj (hr'.symm.trans (hsame.1.trans hr))
                exact .inr hladen
            · exact h.resolve_left fun hnot => hnot ⟨rfl, hsome⟩

/-! ## A box in an ignored group -/

/-- A box in a group that is marked. -/
def curtained : Node :=
  { name := "vml", attributes := [("id", "r")], children := [
    { name := "group", attributes := [("id", "g"), (ignoreMark, "true")], children := [
      { name := "box", attributes := [("id", "b")] }] }] }

def backstage : Document where
  tree := .ofNode curtained

/-- A reflector observes it. -/
def backstageSeen : Stage Rat Unit Nat where
  source := .manual 0 {}
  trees := [{ tree := backstage.tree }]
  documents := [{ tree := 0, prefixes := [], observers := [.reflector 0] }]
  reflectors := [{ document := 0, rebinding := .call (), onText := some () }]
  outside := 0

/-- The box gets an attribute. -/
def painting : List Patch.Entry := [.patch (.setAttr "b" "x" (some "1"))]

theorem painting_hidden (atomic : Bool) :
    (Revision.patches painting false atomic).Hidden backstage := by
  intro batch hread front patch rest turn target hbatch hfront haim
  obtain rfl : [some (.setAttr "b" "x" (some "1"))] = batch := Except.ok.inj hread
  cases front with
  | cons _ front => cases front <;> cases hbatch
  | nil =>
      cases hbatch
      cases hfront
      cases haim
      exact ⟨_, .child List.mem_cons_self (.self _), rfl, .child List.mem_cons_self (.self _),
        fun h => nomatch congrArg Node.name h⟩

theorem backstageSeen_discreet : ∀ c, .call c ∈ ([.reflector 0] : List (Observer Unit)) →
    Discreet counting 0 0 c := by
  intro c hc
  cases List.mem_singleton.mp hc

/-- One by one, patches of the box are not reflected. -/
theorem painting_each : (Revision.patches painting false false).Hidden backstage ∧
    isOk ((Revision.patches painting false false).run counting 0 backstageSeen) = true ∧
    Unreflected 0 backstageSeen
      (after ((Revision.patches painting false false).run counting 0) backstageSeen) := by
  have hok : isOk ((Revision.patches painting false false).run counting 0 backstageSeen) =
      true := by
    decide +kernel
  have hdoc : backstageSeen.document? 0 = some backstage := rfl
  have hiff : Unreflected 0 backstageSeen
      (after ((Revision.patches painting false false).run counting 0) backstageSeen) ↔ _ :=
    unreflected_iff hdoc (Tree.keyed_ofNode curtained) rfl rfl rfl List.mem_cons_self
      backstageSeen_discreet (painting_hidden false) fun _ => hok
  exact ⟨painting_hidden false, hok, hiff.mpr (.inl fun h => nomatch h.1)⟩

/-- As a batch that is all or nothing they are: a frame is requested. -/
theorem painting_together : (Revision.patches painting false true).Hidden backstage ∧
    isOk ((Revision.patches painting false true).run counting 0 backstageSeen) = true ∧
    ¬ Unreflected 0 backstageSeen
      (after ((Revision.patches painting false true).run counting 0) backstageSeen) := by
  refine ⟨painting_hidden true, by decide +kernel, fun h => ?_⟩
  have hrequested : (after ((Revision.patches painting false true).run counting 0)
      backstageSeen).flushRequests 0 = 1 := by decide +kernel
  rw [h.2] at hrequested
  cases hrequested

end Stage

end Cuesheet
