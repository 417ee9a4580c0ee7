import Cuesheet.Document.Tree
import Mathlib.Data.List.Nodup
import Mathlib.Data.List.Pairwise

/-!
# The nodes around a node

`Encloses` says which nodes stand around a node, without looking at keys. In a tree that gives no
key twice, the walk from a node up to the root meets exactly the nodes around it (`mem_ancestors`),
the inner ones first (`ancestors_pairwise`).
-/

namespace Cuesheet.Xml

namespace Node

theorem sizeOf_lt_of_mem_children {node child : Node} (h : child ∈ node.children) :
    sizeOf child < sizeOf node := by
  have hchildren : sizeOf node.children < sizeOf node := by
    cases node
    simp only [Node.mk.sizeOf_spec]
    omega
  exact Nat.lt_trans (List.sizeOf_lt_of_mem h) hchildren

/-- Induction over a tree: whatever is inherited from the children of a node. -/
@[elab_as_elim]
theorem children_induction {motive : Node → Prop}
    (step : ∀ node : Node, (∀ child ∈ node.children, motive child) → motive node) (node : Node) :
    motive node :=
  step node fun child _ => children_induction step child
termination_by sizeOf node
decreasing_by
  rename_i hmem
  exact sizeOf_lt_of_mem_children hmem

/-- `a` encloses `n` if `n` is `a` or stands inside it. -/
inductive Encloses : Node → Node → Prop
  | self (n : Node) : Encloses n n
  | child {a c n : Node} (mem : c ∈ a.children) (inner : Encloses c n) : Encloses a n

theorem Encloses.trans {a b c : Node} (hab : a.Encloses b) (hbc : b.Encloses c) :
    a.Encloses c := by
  induction hab with
  | self => exact hbc
  | child mem _ ih => exact .child mem (ih hbc)

theorem Encloses.eq_or_sizeOf_lt {a n : Node} (h : a.Encloses n) :
    a = n ∨ sizeOf n < sizeOf a := by
  induction h with
  | self n => exact .inl rfl
  | @child a c n mem _ ih =>
      have hsize : sizeOf c < sizeOf a := sizeOf_lt_of_mem_children mem
      rcases ih with rfl | ih
      · exact .inr hsize
      · exact .inr (Nat.lt_trans ih hsize)

theorem Encloses.antisymm {a b : Node} (hab : a.Encloses b) (hba : b.Encloses a) : a = b := by
  rcases hab.eq_or_sizeOf_lt with heq | hlt
  · exact heq
  · rcases hba.eq_or_sizeOf_lt with heq | hlt'
    · exact heq.symm
    · omega

/-! ## The recursions, one level deep -/

theorem preorderAll_eq (nodes : List Node) : preorderAll nodes = nodes.flatMap preorder := by
  induction nodes with
  | nil => rfl
  | cons node rest ih => rw [preorderAll, ih, List.flatMap_cons]

theorem preorder_eq (node : Node) : node.preorder = node :: node.children.flatMap preorder := by
  rw [← preorderAll_eq]
  cases node
  rw [preorder]

theorem innerTextAll_eq (nodes : List Node) :
    innerTextAll nodes = nodes.flatMap fun node => node.innerText ++ node.tail := by
  induction nodes with
  | nil => rfl
  | cons node rest ih => rw [innerTextAll, ih, List.flatMap_cons]

theorem innerText_eq (node : Node) :
    node.innerText =
      node.text ++ node.children.flatMap fun child => child.innerText ++ child.tail := by
  rw [← innerTextAll_eq]
  cases node
  rw [innerText]

theorem pathToAny?_eq (key : Nat) (nodes : List Node) :
    pathToAny? key nodes = nodes.findSome? (pathTo? key) := by
  induction nodes with
  | nil => rfl
  | cons node rest ih =>
      rw [pathToAny?, ih, List.findSome?_cons]
      split <;> simp_all

theorem pathTo?_eq (key : Nat) (node : Node) :
    node.pathTo? key =
      if node.key = key then some [node]
      else (node.children.findSome? (pathTo? key)).map (node :: ·) := by
  rw [← pathToAny?_eq]
  cases node
  rw [pathTo?]

theorem parentAmong?_eq (key : Nat) (nodes : List Node) :
    parentAmong? key nodes = nodes.findSome? (parentOf? key) := by
  induction nodes with
  | nil => rfl
  | cons node rest ih =>
      rw [parentAmong?, ih, List.findSome?_cons]
      split <;> simp_all

theorem parentOf?_eq (key : Nat) (node : Node) :
    node.parentOf? key =
      if node.children.any (·.key == key) then some node
      else node.children.findSome? (parentOf? key) := by
  rw [← parentAmong?_eq]
  cases node
  rw [parentOf?]

theorem mem_preorder {a n : Node} : n ∈ a.preorder ↔ a.Encloses n := by
  constructor
  · induction a using children_induction with
    | step a ih =>
        intro h
        rw [preorder_eq] at h
        rcases List.mem_cons.mp h with rfl | h
        · exact .self n
        · obtain ⟨c, hc, h⟩ := List.mem_flatMap.mp h
          exact .child hc (ih c hc h)
  · intro h
    induction h with
    | self n =>
        rw [preorder_eq]
        exact List.mem_cons_self
    | child mem _ ih =>
        rw [preorder_eq]
        exact List.mem_cons_of_mem _ (List.mem_flatMap.mpr ⟨_, mem, ih⟩)

/-! ## Keys -/

/-- The keys of the nodes in a tree, in document order. -/
def keys (node : Node) : List Nat := node.preorder.map Node.key

theorem keys_eq (node : Node) : node.keys = node.key :: node.children.flatMap keys := by
  rw [keys, preorder_eq, List.map_cons, List.map_flatMap]
  rfl

theorem mem_keys {a : Node} {key : Nat} : key ∈ a.keys ↔ ∃ n, a.Encloses n ∧ n.key = key := by
  simp only [keys, List.mem_map, mem_preorder]

variable {root a n : Node}

theorem eq_of_key_eq (h : root.keys.Nodup) (ha : root.Encloses a) (hn : root.Encloses n)
    (hkey : a.key = n.key) : a = n :=
  List.inj_on_of_nodup_map h (mem_preorder.mpr ha) (mem_preorder.mpr hn) hkey

/-- A node stands in one child at most. -/
theorem child_unique (h : root.keys.Nodup) {c c' : Node} (hc : c ∈ root.children)
    (hc' : c' ∈ root.children) (hn : c.Encloses n) (hn' : c'.Encloses n) : c = c' := by
  rw [keys_eq] at h
  obtain ⟨-, hapart⟩ := List.nodup_flatMap.mp (List.nodup_cons.mp h).2
  by_contra hne
  have : Std.Symm (Function.onFun List.Disjoint keys) := ⟨fun _ _ h _ ha hb => h hb ha⟩
  have hdisjoint := hapart.forall hc hc' hne
  exact hdisjoint (mem_keys.mpr ⟨n, hn, rfl⟩) (mem_keys.mpr ⟨n, hn', rfl⟩)

theorem keys_nodup_of_mem (h : root.keys.Nodup) {c : Node} (hc : c ∈ root.children) :
    c.keys.Nodup := by
  rw [keys_eq] at h
  exact (List.nodup_flatMap.mp (List.nodup_cons.mp h).2).1 c hc

theorem keys_nodup_of_encloses (h : root.keys.Nodup) (ha : root.Encloses a) : a.keys.Nodup := by
  induction ha with
  | self => exact h
  | child mem _ ih => exact ih (keys_nodup_of_mem h mem)

/-- Nothing inside a node has its key. -/
theorem key_ne_of_inside (h : root.keys.Nodup) {c : Node} (hc : c ∈ root.children)
    (hn : c.Encloses n) : root.key ≠ n.key := by
  rw [keys_eq] at h
  intro heq
  refine (List.nodup_cons.mp h).1 (List.mem_flatMap.mpr ⟨c, hc, ?_⟩)
  exact mem_keys.mpr ⟨n, hn, heq.symm⟩

/-! ## Paths -/

theorem pathTo?_isSome (h : root.Encloses n) : ∃ path, root.pathTo? n.key = some path := by
  rw [← Option.isSome_iff_exists]
  induction h with
  | self => rw [pathTo?_eq, if_pos rfl]; rfl
  | child mem _ ih =>
      rw [pathTo?_eq]
      split
      · rfl
      · rw [Option.isSome_map, List.findSome?_isSome_iff]
        exact ⟨_, mem, ih⟩

/-- A path leads from the root to the node with the key, every node on it enclosing the next. -/
theorem pathTo?_sound {key : Nat} {path : List Node} (h : root.pathTo? key = some path) :
    path.Pairwise Encloses ∧ (∀ a ∈ path, root.Encloses a) ∧
      ∃ front n, path = front ++ [n] ∧ n.key = key := by
  induction root using children_induction generalizing path with
  | step root ih =>
      rw [pathTo?_eq] at h
      split at h
      · rename_i hkey
        obtain rfl := Option.some.inj h
        refine ⟨List.pairwise_singleton _ _, fun a ha => ?_, [], root, rfl, hkey⟩
        rw [List.mem_singleton.mp ha]
        exact .self root
      · obtain ⟨below, hbelow, rfl⟩ := Option.map_eq_some_iff.mp h
        obtain ⟨c, hc, hpath⟩ := List.exists_of_findSome?_eq_some hbelow
        obtain ⟨hpairs, hinside, front, n, hlast, hkey⟩ := ih c hc hpath
        have hroot : ∀ a ∈ below, root.Encloses a := fun a ha => .child hc (hinside a ha)
        refine ⟨List.pairwise_cons.mpr ⟨hroot, hpairs⟩, fun a ha => ?_, root :: front, n, ?_, hkey⟩
        · rcases List.mem_cons.mp ha with rfl | ha
          · exact .self a
          · exact hroot a ha
        · rw [hlast]; rfl

/-- Where no key is given twice, whatever encloses a node is on the path to it. -/
theorem mem_pathTo? (h : root.keys.Nodup) (ha : root.Encloses a) (hn : a.Encloses n)
    {path : List Node} (hpath : root.pathTo? n.key = some path) : a ∈ path := by
  induction ha generalizing path with
  | self root =>
      rw [pathTo?_eq] at hpath
      split at hpath
      · obtain rfl := Option.some.inj hpath
        exact List.mem_cons_self
      · obtain ⟨below, -, rfl⟩ := Option.map_eq_some_iff.mp hpath
        exact List.mem_cons_self
  | @child root c a mem inner ih =>
      have hinside : c.Encloses n := inner.trans hn
      rw [pathTo?_eq, if_neg (key_ne_of_inside h mem hinside)] at hpath
      obtain ⟨below, hbelow, rfl⟩ := Option.map_eq_some_iff.mp hpath
      obtain ⟨c', hc', hpath'⟩ := List.exists_of_findSome?_eq_some hbelow
      -- the path goes through the one child that encloses the node
      obtain ⟨-, hinside', front, n', rfl, hkey⟩ := pathTo?_sound hpath'
      have hn' : c'.Encloses n' := hinside' n' (by simp)
      obtain rfl := eq_of_key_eq h (.child hc' hn') (.child mem hinside) hkey
      obtain rfl := child_unique h mem hc' hinside hn'
      exact List.mem_cons_of_mem _ (ih (keys_nodup_of_mem h mem) hn hpath')

end Node

/-! ## The walk up -/

namespace Tree

variable {tree : Tree} {a n : Node}

/-- The walk from a node up to the root meets exactly the nodes that enclose it. -/
theorem mem_ancestors (h : tree.root.keys.Nodup) (hn : tree.root.Encloses n) :
    a ∈ tree.ancestors n.key ↔ tree.root.Encloses a ∧ a.Encloses n := by
  obtain ⟨path, hpath⟩ := Node.pathTo?_isSome hn
  have hancestors : tree.ancestors n.key = path.reverse := by rw [ancestors, hpath]; rfl
  rw [hancestors, List.mem_reverse]
  constructor
  · intro ha
    obtain ⟨hpairs, hinside, front, n', rfl, hkey⟩ := Node.pathTo?_sound hpath
    obtain rfl := Node.eq_of_key_eq h (hinside n' (by simp)) hn hkey
    refine ⟨hinside a ha, ?_⟩
    rcases List.mem_append.mp ha with ha | ha
    · exact (List.pairwise_append.mp hpairs).2.2 a ha n' (List.mem_singleton_self _)
    · rw [List.mem_singleton.mp ha]
      exact .self n'
  · rintro ⟨ha, han⟩
    exact Node.mem_pathTo? h ha han hpath

/-- It meets the inner ones first. -/
theorem ancestors_pairwise (tree : Tree) (key : Nat) :
    (tree.ancestors key).Pairwise fun inner outer => outer.Encloses inner := by
  rw [ancestors]
  cases hpath : tree.root.pathTo? key with
  | none => exact List.Pairwise.nil
  | some path => exact List.pairwise_reverse.mpr (Node.pathTo?_sound hpath).1

/-- A key that is in the tree is found. -/
theorem find?_of_mem {key : Nat} (h : key ∈ tree.root.keys) :
    ∃ n, tree.find? key = some n ∧ n.key = key := by
  obtain ⟨n, hn, rfl⟩ := Node.mem_keys.mp h
  obtain ⟨path, hpath⟩ := Node.pathTo?_isSome hn
  obtain ⟨-, -, front, found, rfl, hkey⟩ := Node.pathTo?_sound hpath
  refine ⟨found, ?_, hkey⟩
  rw [find?, hpath, Option.bind_some, List.getLast?_concat]

theorem mem_keys_of_find? {key : Nat} (h : tree.find? key = some n) : key ∈ tree.root.keys := by
  obtain ⟨path, hpath, -⟩ := Option.bind_eq_some_iff.mp h
  obtain ⟨-, hinside, front, last, rfl, hkey⟩ := Node.pathTo?_sound hpath
  exact Node.mem_keys.mpr ⟨last, hinside last (by simp), hkey⟩

/-- The root is found by its key, with nothing around it. -/
theorem find?_root (tree : Tree) :
    tree.find? tree.root.key = some tree.root ∧ tree.ancestors tree.root.key = [tree.root] := by
  have hpath : tree.root.pathTo? tree.root.key = some [tree.root] := by
    rw [Node.pathTo?_eq, if_pos rfl]
  rw [find?, ancestors, hpath]
  exact ⟨rfl, rfl⟩

end Tree

end Cuesheet.Xml
