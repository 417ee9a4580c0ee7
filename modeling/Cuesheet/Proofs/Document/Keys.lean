import Cuesheet.Patch.Apply
import Cuesheet.Proofs.Data.Outcomes
import Cuesheet.Proofs.Document.Around
import Mathlib.Data.List.Flatten
import Mathlib.Data.List.Perm.Subperm

/-!
# Keys stay apart

A tree is `Keyed` if no two of its nodes share a key and the next key is above all of them. A tree
that was just read is keyed (`Document.keyed_of_ofText`), and every patch leaves it so
(`Patch.keyed_of_apply`): a changed node keeps its key, and the nodes an edit brings in get keys
from `nextKey` on.

A property that looks at neither keys nor children (`Node.Shallow`) holds everywhere in a tree that
was numbered if it did before (`Node.inside_number`), and everywhere in a tree one of whose nodes was
changed if the change keeps it (`Node.inside_modify`).
-/

namespace Cuesheet.Xml

open List (Subperm)

namespace Node

/-! ## Numbering -/

theorem number_eq (node : Node) (next : Nat) :
    node.number next =
      ({ node with key := next, children := (numberAll (next + 1) node.children).1 },
        (numberAll (next + 1) node.children).2) := by
  cases node
  rw [number]

/-- Numbering hands out as many keys as there are nodes, without a gap. -/
def Counted (node : Node) : Prop :=
  ∀ next, (node.number next).1.keys = List.range' next node.keys.length ∧
    (node.number next).2 = next + node.keys.length

theorem numberAll_counted (nodes : List Node) (h : ∀ node ∈ nodes, node.Counted) (next : Nat) :
    (numberAll next nodes).1.flatMap keys = List.range' next (nodes.flatMap keys).length ∧
      (numberAll next nodes).2 = next + (nodes.flatMap keys).length := by
  induction nodes generalizing next with
  | nil => exact ⟨rfl, rfl⟩
  | cons node rest ih =>
      obtain ⟨hkeys, hnext⟩ := h node List.mem_cons_self next
      obtain ⟨hkeys', hnext'⟩ := ih (fun n hn => h n (List.mem_cons_of_mem _ hn))
        (node.number next).2
      have hsplit := List.range'_append_1 (s := next) (m := node.keys.length)
        (n := (rest.flatMap keys).length)
      rw [hnext] at hkeys' hnext'
      simp only [numberAll, List.flatMap_cons, List.length_append, hnext, hnext', hkeys, hkeys']
      exact ⟨hsplit, Nat.add_assoc ..⟩

theorem counted (node : Node) : node.Counted := by
  induction node using children_induction with
  | step node ih =>
      intro next
      obtain ⟨hkeys, hnext⟩ := numberAll_counted node.children ih (next + 1)
      rw [number_eq]
      refine ⟨?_, ?_⟩
      · rw [keys_eq, keys_eq, List.length_cons, List.range'_succ]
        exact congrArg _ hkeys
      · rw [hnext, keys_eq, List.length_cons]
        omega

/-! ## Changing one node -/

theorem modifyAll_eq (key : Nat) (f : Node → Node) (nodes : List Node) :
    modifyAll key f nodes = nodes.map (modify key f) := by
  induction nodes with
  | nil => rfl
  | cons node rest ih => rw [modifyAll, ih, List.map_cons]

theorem modify_eq (key : Nat) (f : Node → Node) (node : Node) :
    node.modify key f =
      if node.key = key then f node
      else { node with children := node.children.map (modify key f) } := by
  rw [← modifyAll_eq]
  cases node
  rw [modify]

theorem modify_of_notMem {key : Nat} {f : Node → Node} {node : Node} (h : key ∉ node.keys) :
    node.modify key f = node := by
  induction node using children_induction with
  | step node ih =>
      rw [keys_eq, List.mem_cons, not_or] at h
      obtain ⟨hkey, hchildren⟩ := h
      have hsame : node.children.map (modify key f) = node.children := by
        refine (List.map_congr_left fun c hc => ?_).trans (List.map_id _)
        exact ih c hc fun hmem => hchildren (List.mem_flatMap.mpr ⟨c, hc, hmem⟩)
      rw [modify_eq, if_neg (Ne.symm hkey), hsame]
      cases node
      rfl

/-- Where only the node that holds a key is changed, no more than its new keys come in. -/
theorem keys_map_subperm (key : Nat) {g : Node → Node} {extra : List Nat} {nodes : List Node}
    (hnodup : (nodes.flatMap keys).Nodup) (hsame : ∀ c ∈ nodes, key ∉ c.keys → g c = c)
    (hgrow : ∀ c ∈ nodes, (g c).keys.Subperm (c.keys ++ extra)) :
    ((nodes.map g).flatMap keys).Subperm (nodes.flatMap keys ++ extra) := by
  induction nodes with
  | nil => exact List.nil_subperm
  | cons c rest ih =>
      rw [List.flatMap_cons] at hnodup
      obtain ⟨-, hrest, hapart⟩ := List.nodup_append.mp hnodup
      simp only [List.map_cons, List.flatMap_cons]
      by_cases hkey : key ∈ c.keys
      · -- the node is in here, so nothing else changes
        have hsameRest : rest.map g = rest := by
          refine (List.map_congr_left fun c' hc' => ?_).trans (List.map_id _)
          refine hsame c' (List.mem_cons_of_mem _ hc') fun hkey' => ?_
          exact hapart key hkey key (List.mem_flatMap.mpr ⟨c', hc', hkey'⟩) rfl
        rw [hsameRest]
        refine ((hgrow c List.mem_cons_self).append (Subperm.refl _)).trans ?_
        refine List.Perm.subperm ?_
        rw [List.append_assoc, List.append_assoc]
        exact List.Perm.append_left _ List.perm_append_comm
      · -- the node is further on: this child stays, and the new keys go behind the rest
        rw [hsame c List.mem_cons_self hkey, List.append_assoc]
        refine (Subperm.refl _).append (ih hrest ?_ ?_)
        · exact fun c' hc' => hsame c' (List.mem_cons_of_mem _ hc')
        · exact fun c' hc' => hgrow c' (List.mem_cons_of_mem _ hc')

theorem keys_modify (key : Nat) {f : Node → Node} {extra : List Nat}
    (hf : ∀ n : Node, n.keys.Nodup → (f n).keys.Subperm (n.keys ++ extra)) {node : Node}
    (h : node.keys.Nodup) : (node.modify key f).keys.Subperm (node.keys ++ extra) := by
  induction node using children_induction with
  | step node ih =>
      rw [modify_eq]
      split
      · exact hf node h
      · have hchildren := h
        rw [keys_eq, List.nodup_cons] at hchildren
        rw [keys_eq, keys_eq node, List.cons_append]
        refine (List.subperm_cons _).mpr (keys_map_subperm key hchildren.2 ?_ ?_)
        · exact fun c _ hkey => modify_of_notMem hkey
        · exact fun c hc => ih c hc (keys_nodup_of_mem h hc)

/-! ## The edits of one node -/

theorem keys_setAttribute (node : Node) (name : String) (value : Option String) :
    (node.setAttribute name value).keys = node.keys := by
  rw [keys_eq, keys_eq]
  rfl

theorem keys_setText (node : Node) (text : String) :
    (node.setText text).keys.Subperm node.keys := by
  rw [keys_eq, keys_eq node]
  exact (List.subperm_cons _).mpr List.nil_subperm

theorem keys_removeChild (node : Node) (key : Nat) :
    (node.removeChild key).keys.Subperm node.keys := by
  rw [keys_eq, keys_eq node]
  refine (List.subperm_cons _).mpr (List.Sublist.subperm ?_)
  exact List.filter_sublist.flatMap keys

theorem keys_insertChild (node child : Node) (index : Option Int) :
    (node.insertChild child index).keys.Subperm (node.keys ++ child.keys) := by
  rw [keys_eq, keys_eq node, List.cons_append]
  refine (List.subperm_cons _).mpr (List.Perm.subperm ?_)
  simp only [insertChild, List.flatMap_append, List.flatMap_cons]
  refine (List.Perm.append_left _ List.perm_append_comm).trans ?_
  rw [← List.append_assoc, ← List.flatMap_append, List.take_append_drop]

theorem keys_replaceChild {node : Node} (h : node.keys.Nodup) (key : Nat) (replacement : Node) :
    (node.replaceChild key replacement).keys.Subperm (node.keys ++ replacement.keys) := by
  have hchildren := h
  rw [keys_eq, List.nodup_cons] at hchildren
  rw [keys_eq, keys_eq node, List.cons_append]
  refine (List.subperm_cons _).mpr (keys_map_subperm key hchildren.2 ?_ ?_)
  · intro c _ hkey
    refine if_neg fun heq => hkey ?_
    rw [keys_eq, heq]
    exact List.mem_cons_self
  · intro c _
    split
    · have hkeys : keys { replacement with tail := c.tail } = replacement.keys := by
        rw [keys_eq, keys_eq replacement]
      rw [hkeys]
      exact (List.sublist_append_right _ _).subperm
    · exact (List.sublist_append_left _ _).subperm

/-! ## What holds everywhere in a tree -/

section Inside

variable {p : Node → Prop} {node : Node}

/-- A property of every node that a node is or that stands in it. -/
def Inside (node : Node) (p : Node → Prop) : Prop := ∀ n, node.Encloses n → p n

theorem inside_iff : node.Inside p ↔ p node ∧ ∀ child ∈ node.children, child.Inside p := by
  constructor
  · intro h
    exact ⟨h node (.self node), fun child hchild n hn => h n (.child hchild hn)⟩
  · rintro ⟨hnode, hchildren⟩ n hn
    cases hn with
    | self => exact hnode
    | child mem inner => exact hchildren _ mem n inner

/-- A property looks at neither keys nor children. -/
def Shallow (p : Node → Prop) : Prop :=
  ∀ node key children, p node → p { node with key, children }

theorem mem_numberAll {nodes : List Node} {next : Nat} {n : Node}
    (h : n ∈ (numberAll next nodes).1) :
    ∃ node ∈ nodes, ∃ next', n = (node.number next').1 := by
  induction nodes generalizing next with
  | nil => cases h
  | cons node rest ih =>
      rw [numberAll] at h
      rcases List.mem_cons.mp h with rfl | h
      · exact ⟨node, List.mem_cons_self, next, rfl⟩
      · obtain ⟨node', hnode', next', rfl⟩ := ih h
        exact ⟨node', List.mem_cons_of_mem _ hnode', next', rfl⟩

/-- What is the same for a numbered tree is the same for numbered trees. -/
theorem map_numberAll {α : Type} {f : Node → α} {nodes : List Node}
    (h : ∀ node ∈ nodes, ∀ next, f (node.number next).1 = f node) (next : Nat) :
    (numberAll next nodes).1.map f = nodes.map f := by
  induction nodes generalizing next with
  | nil => rfl
  | cons node rest ih =>
      obtain ⟨hnode, hrest⟩ := List.forall_mem_cons.mp h
      rw [numberAll, List.map_cons, List.map_cons, hnode next, ih hrest]

theorem inside_number (hp : Shallow p) (h : node.Inside p) (next : Nat) :
    (node.number next).1.Inside p := by
  induction node using children_induction generalizing next with
  | step node ih =>
      obtain ⟨hnode, hchildren⟩ := inside_iff.mp h
      rw [number_eq]
      refine inside_iff.mpr ⟨hp node _ _ hnode, fun child hchild => ?_⟩
      obtain ⟨child', hchild', next', rfl⟩ := mem_numberAll hchild
      exact ih child' hchild' (hchildren child' hchild') next'

theorem inside_modify (hp : Shallow p) {f : Node → Node}
    (hf : ∀ n : Node, n.Inside p → (f n).Inside p) (h : node.Inside p) (key : Nat) :
    (node.modify key f).Inside p := by
  induction node using children_induction with
  | step node ih =>
      rw [modify_eq]
      split
      · exact hf node h
      · obtain ⟨hnode, hchildren⟩ := inside_iff.mp h
        refine inside_iff.mpr ⟨hp node _ _ hnode, fun child hchild => ?_⟩
        obtain ⟨child', hchild', rfl⟩ := List.mem_map.mp hchild
        exact ih child' hchild' (hchildren child' hchild')

theorem inside_insertChild (hp : Shallow p) {child : Node} (h : node.Inside p)
    (hchild : child.Inside p) (index : Option Int) : (node.insertChild child index).Inside p := by
  obtain ⟨hnode, hchildren⟩ := inside_iff.mp h
  refine inside_iff.mpr ⟨hp node node.key _ hnode, fun c hc => ?_⟩
  rcases List.mem_append.mp hc with hc | hc
  · exact hchildren c (List.mem_of_mem_take hc)
  · rcases List.mem_cons.mp hc with rfl | hc
    · exact hchild
    · exact hchildren c (List.mem_of_mem_drop hc)

theorem inside_removeChild (hp : Shallow p) (h : node.Inside p) (key : Nat) :
    (node.removeChild key).Inside p := by
  obtain ⟨hnode, hchildren⟩ := inside_iff.mp h
  refine inside_iff.mpr ⟨hp node node.key _ hnode, fun c hc => ?_⟩
  exact hchildren c (List.mem_filter.mp hc).1

end Inside

end Node

/-! ## Trees -/

namespace Tree

/-- No two nodes share a key, and the next key is above all of them. -/
structure Keyed (tree : Tree) : Prop where
  nodup : tree.root.keys.Nodup
  below : ∀ key ∈ tree.root.keys, key < tree.nextKey

variable {tree : Tree}

theorem keyed_ofNode (root : Node) : (ofNode root).Keyed := by
  obtain ⟨hkeys, hnext⟩ := root.counted 0
  have hnodup : (root.number 0).1.keys.Nodup := by
    rw [hkeys]
    exact List.nodup_range'
  refine ⟨hnodup, fun key hkey => ?_⟩
  rw [ofNode, hkeys, List.mem_range'_1] at hkey
  exact Nat.lt_of_lt_of_eq hkey.2 hnext.symm

/-- An edit keeps a tree keyed that takes its new keys from the next ones on. -/
theorem Keyed.modify (h : tree.Keyed) {key : Nat} (count : Nat) {f : Node → Node}
    (hf : ∀ n : Node, n.keys.Nodup →
      (f n).keys.Subperm (n.keys ++ List.range' tree.nextKey count)) :
    Keyed { root := tree.root.modify key f, nextKey := tree.nextKey + count } := by
  have hkeys := Node.keys_modify key hf h.nodup
  have hnodup : (tree.root.keys ++ List.range' tree.nextKey count).Nodup := by
    refine List.nodup_append.mpr ⟨h.nodup, List.nodup_range', fun k hk k' hk' => ?_⟩
    have := h.below k hk
    rw [List.mem_range'_1] at hk'
    omega
  obtain ⟨some, hperm, hsub⟩ := hkeys
  refine ⟨hperm.nodup_iff.mp (hnodup.sublist hsub), fun k hk => ?_⟩
  rcases List.mem_append.mp (hsub.subset (hperm.mem_iff.mpr hk)) with hk | hk
  · exact Nat.lt_add_right count (h.below k hk)
  · exact (List.mem_range'_1.mp hk).2

/-- An edit that brings in no keys keeps a tree keyed. -/
theorem Keyed.trim (h : tree.Keyed) {key : Nat} {f : Node → Node}
    (hf : ∀ n : Node, (f n).keys.Subperm n.keys) : (tree.modify key f).Keyed := by
  refine h.modify 0 fun n _ => ?_
  rw [List.range'_zero, List.append_nil]
  exact hf n

theorem Keyed.insert (h : tree.Keyed) (parent : Nat) (child : Node) (index : Option Int) :
    (tree.insert parent child index).Keyed := by
  obtain ⟨hkeys, hnext⟩ := child.counted tree.nextKey
  simp only [Tree.insert, adopt, Tree.modify, hnext]
  refine h.modify _ fun n _ => ?_
  rw [← hkeys]
  exact n.keys_insertChild _ index

theorem Keyed.replace (h : tree.Keyed) (parent key : Nat) (replacement : Node) :
    (tree.replace parent key replacement).Keyed := by
  obtain ⟨hkeys, hnext⟩ := replacement.counted tree.nextKey
  simp only [Tree.replace, adopt, Tree.modify, hnext]
  refine h.modify _ fun n hn => ?_
  rw [← hkeys]
  exact Node.keys_replaceChild hn key _

end Tree

end Cuesheet.Xml

namespace Cuesheet

open Xml

variable {doc doc' : Document}

/-! ## Documents -/

theorem Document.keyed_of_ofText {text : String} (h : Document.ofText text = .ok doc) :
    doc.tree.Keyed := by
  unfold Document.ofText at h
  cases hsource : Source.ofMarkup text with
  | error fault => rw [hsource] at h; cases h
  | ok source =>
      rw [hsource] at h
      cases h
      exact Tree.keyed_ofNode source.root

theorem Document.keyed_of_remove {node : Node} {m : Mutation} (hdoc : doc.tree.Keyed)
    (h : doc.remove node = .ok (doc', m)) : doc'.tree.Keyed := by
  unfold Document.remove at h
  split at h
  · cases h
  · cases h
    exact hdoc.trim fun n => n.keys_removeChild _

theorem Document.keyed_of_replace {node replacement : Node} {m : Mutation}
    (hdoc : doc.tree.Keyed) (h : doc.replace node replacement = .ok (doc', m)) :
    doc'.tree.Keyed := by
  unfold Document.replace at h
  split at h
  · cases h
  · cases h
    exact hdoc.replace _ _ _

theorem Document.keyed_setAttribute (hdoc : doc.tree.Keyed) (node : Node) (name : String)
    (value : Option String) : (doc.setAttribute node name value).1.tree.Keyed := by
  refine hdoc.trim fun n => ?_
  rw [Node.keys_setAttribute]

namespace Patch

/-- A patch leaves a keyed tree keyed. -/
theorem keyed_of_apply {enforce : Bool} {patch : Patch} {m : Mutation} (hdoc : doc.tree.Keyed)
    (h : patch.apply enforce doc = .ok (doc', m)) : doc'.tree.Keyed := by
  cases patch with
  | appendNode parentId markup index =>
      obtain ⟨parent, -, h⟩ := ok_of_bind h
      obtain ⟨-, -, h⟩ := ok_of_bind h
      obtain ⟨node, -, h⟩ := ok_of_bind h
      cases h
      exact hdoc.insert parent.key node index
  | removeNode id =>
      obtain ⟨node, -, h⟩ := ok_of_bind h
      obtain ⟨-, -, h⟩ := ok_of_bind h
      split at h
      · rename_i hremove
        cases h
        exact Document.keyed_of_remove hdoc hremove
      · cases h
  | setAttr id name value =>
      obtain ⟨node, -, h⟩ := ok_of_bind h
      obtain ⟨-, -, h⟩ := ok_of_bind h
      cases h
      exact Document.keyed_setAttribute hdoc node name value
  | setText id text =>
      obtain ⟨node, -, h⟩ := ok_of_bind h
      obtain ⟨-, -, h⟩ := ok_of_bind h
      cases h
      exact hdoc.trim fun n => n.keys_setText text
  | replaceSubtree id markup =>
      obtain ⟨node, -, h⟩ := ok_of_bind h
      obtain ⟨-, -, h⟩ := ok_of_bind h
      obtain ⟨replacement, -, h⟩ := ok_of_bind h
      split at h
      · rename_i hreplace
        cases h
        exact Document.keyed_of_replace hdoc hreplace
      · cases h
  | sealScene id =>
      simp only [apply] at h
      split at h
      · cases h
      · split at h
        · cases h
          exact Document.keyed_setAttribute hdoc _ _ _
        · cases h

theorem keyed_of_applyEntry {enforce : Bool} {entry : Option Patch} {m : Mutation}
    (hdoc : doc.tree.Keyed) (h : applyEntry enforce doc entry = .ok (doc', m)) :
    doc'.tree.Keyed := by
  cases entry with
  | none => cases h
  | some patch => exact keyed_of_apply hdoc h

theorem keyed_of_applyAll {enforce : Bool} {batch : List (Option Patch)}
    (hdoc : doc.tree.Keyed) (h : applyAll enforce doc batch = .ok doc') : doc'.tree.Keyed := by
  induction batch generalizing doc with
  | nil => cases h; exact hdoc
  | cons entry rest ih =>
      rw [applyAll] at h
      split at h
      · cases h
      · rename_i happly
        exact ih (keyed_of_applyEntry hdoc happly) h

/-- So does a batch. -/
theorem keyed_of_applyBatch {enforce : Bool} {entries : List Entry} (hdoc : doc.tree.Keyed)
    (h : applyBatch enforce doc entries = .ok doc') : doc'.tree.Keyed := by
  unfold applyBatch at h
  split at h
  · cases h
  · split at h
    · cases h
    · exact keyed_of_applyAll hdoc h

end Patch

end Cuesheet
