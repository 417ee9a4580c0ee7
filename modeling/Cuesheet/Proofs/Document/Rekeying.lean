import Cuesheet.Proofs.Document.Rewriting

/-!
# Trees with other keys

Keys tell the nodes of a tree apart, and nothing else depends on them. What is found in a tree with
other keys (`Tree.Rekeyed`) is what was found, with other keys, and so is what an edit makes of it;
nodes that come in get keys that are new on both sides (`Tree.Rekeyed.adopt`).

Documents are the same but for their keys (`Document.Same`) if they are equal once they are numbered
anew. They are written alike (`Document.Same.write_eq`). A keyed tree is what it is when it is
numbered anew, with other keys (`Tree.exists_rekeyed`).
-/

namespace Cuesheet

namespace Xml

namespace Node

variable {f f' : Nat → Nat} {key : Nat} {node : Node} {nodes : List Node}

/-! ## Rekeying -/

mutual

/-- The same tree with other keys. -/
def rekey (f : Nat → Nat) : Node → Node
  | ⟨key, name, attributes, text, children, tail⟩ =>
    ⟨f key, name, attributes, text, rekeyAll f children, tail⟩

/-- The same trees with other keys. -/
def rekeyAll (f : Nat → Nat) : List Node → List Node
  | [] => []
  | node :: rest => node.rekey f :: rekeyAll f rest

end

theorem rekeyAll_eq (f : Nat → Nat) (nodes : List Node) :
    rekeyAll f nodes = nodes.map (rekey f) := by
  induction nodes with
  | nil => rfl
  | cons node rest ih => rw [rekeyAll, ih, List.map_cons]

theorem rekey_eq (f : Nat → Nat) (node : Node) :
    node.rekey f = { node with key := f node.key, children := node.children.map (rekey f) } := by
  rw [← rekeyAll_eq]
  cases node
  rw [rekey]

theorem key_rekey (f : Nat → Nat) (node : Node) : (node.rekey f).key = f node.key := by
  rw [rekey_eq]

theorem children_rekey (f : Nat → Nat) (node : Node) :
    (node.rekey f).children = node.children.map (rekey f) := by
  rw [rekey_eq]

theorem attribute?_rekey (f : Nat → Nat) (node : Node) (name : String) :
    (node.rekey f).attribute? name = node.attribute? name := by
  rw [attribute?, rekey_eq]
  rfl

theorem tag_rekey (f : Nat → Nat) (node : Node) : (node.rekey f).tag = node.tag := by
  rw [tag, rekey_eq]
  rfl

theorem preorder_rekey (f : Nat → Nat) (node : Node) :
    (node.rekey f).preorder = node.preorder.map (rekey f) := by
  induction node using children_induction with
  | step node ih =>
      rw [preorder_eq, preorder_eq node, children_rekey, List.map_cons, List.flatMap_map,
        List.map_flatMap, List.flatMap_congr ih]

/-- Only the keys of a tree matter. -/
theorem rekey_congr (h : ∀ k ∈ node.keys, f k = f' k) : node.rekey f = node.rekey f' := by
  induction node using children_induction with
  | step node ih =>
      rw [keys_eq] at h
      obtain ⟨hkey, hchildren⟩ := List.forall_mem_cons.mp h
      have hsame : node.children.map (rekey f) = node.children.map (rekey f') :=
        List.map_congr_left fun c hc => ih c hc fun k hk =>
          hchildren k (List.mem_flatMap.mpr ⟨c, hc, hk⟩)
      rw [rekey_eq, rekey_eq f', hkey, hsame]

/-! ## Numbering -/

theorem numberAll_rekey (h : ∀ node ∈ nodes, ∀ next, (node.rekey f).number next = node.number next)
    (next : Nat) : numberAll next (nodes.map (rekey f)) = numberAll next nodes := by
  induction nodes generalizing next with
  | nil => rfl
  | cons node rest ih =>
      obtain ⟨hnode, hrest⟩ := List.forall_mem_cons.mp h
      simp only [List.map_cons, numberAll, hnode, ih hrest]

theorem number_rekey (f : Nat → Nat) (node : Node) (next : Nat) :
    (node.rekey f).number next = node.number next := by
  induction node using children_induction generalizing next with
  | step node ih =>
      rw [number_eq, number_eq node, children_rekey, numberAll_rekey ih, rekey_eq]

theorem numberAll_numberAll
    (h : ∀ node ∈ nodes, ∀ next next', (node.number next).1.number next' = node.number next')
    (next next' : Nat) : numberAll next' (numberAll next nodes).1 = numberAll next' nodes := by
  induction nodes generalizing next next' with
  | nil => rfl
  | cons node rest ih =>
      obtain ⟨hnode, hrest⟩ := List.forall_mem_cons.mp h
      simp only [numberAll, hnode, ih hrest]

/-- The keys that a tree is numbered with do not depend on those it had. -/
theorem number_number (node : Node) (next next' : Nat) :
    (node.number next).1.number next' = node.number next' := by
  induction node using children_induction generalizing next next' with
  | step node ih => rw [number_eq, number_eq node, number_eq node, numberAll_numberAll ih]

/-- A numbered tree is given its keys back. -/
def Restores (f : Nat → Nat) (next : Nat) (node : Node) : Prop :=
  (List.range' next node.keys.length).map f = node.keys → (node.number next).1.rekey f = node

theorem restores_all (h : ∀ node ∈ nodes, ∀ next, Restores f next node) (next : Nat)
    (hkeys : (List.range' next (nodes.flatMap keys).length).map f = nodes.flatMap keys) :
    (numberAll next nodes).1.map (rekey f) = nodes := by
  induction nodes generalizing next with
  | nil => rfl
  | cons node rest ih =>
      obtain ⟨hnode, hrest⟩ := List.forall_mem_cons.mp h
      rw [List.flatMap_cons, List.length_append, ← List.range'_append_1, List.map_append] at hkeys
      obtain ⟨hfirst, hothers⟩ := List.append_inj hkeys (by simp)
      obtain ⟨-, hnext⟩ := node.counted next
      rw [numberAll, List.map_cons, hnode next hfirst, hnext, ih hrest _ hothers]

theorem restores (f : Nat → Nat) (next : Nat) (node : Node) : Restores f next node := by
  induction node using children_induction generalizing next with
  | step node ih =>
      intro hkeys
      rw [keys_eq, List.length_cons, List.range'_succ, List.map_cons] at hkeys
      obtain ⟨hkey, hinside⟩ := List.cons.inj hkeys
      rw [rekey_eq, number_eq]
      dsimp only
      rw [restores_all ih (next + 1) hinside, hkey]
      cases node
      rfl

/-- Keys for those below `next`, and for all others those from `next'` on. -/
def extend (f : Nat → Nat) (next next' k : Nat) : Nat :=
  if k < next then f k else next' + (k - next)

section

variable (f : Nat → Nat) {next k : Nat} (next' : Nat)

theorem extend_of_lt (h : k < next) : extend f next next' k = f k := if_pos h

theorem extend_of_le (h : next ≤ k) : extend f next next' k = next' + (k - next) :=
  if_neg (Nat.not_lt.mpr h)

end

/-- A tree that is numbered from `next` on and rekeyed is one that is numbered from `next'` on. -/
theorem rekey_number (f : Nat → Nat) (node : Node) (next next' : Nat) :
    (node.number next).1.rekey (extend f next next') = (node.number next').1 := by
  have hback := (node.number next').1.restores (extend f next next') next
  rw [Restores, number_number] at hback
  refine hback ?_
  obtain ⟨hkeys, -⟩ := node.counted next'
  rw [hkeys, List.length_range']
  refine List.ext_getElem (by simp) fun k hk _ => ?_
  rw [List.getElem_map, List.getElem_range', List.getElem_range', extend_of_le f _ (by omega)]
  omega

/-! ## What is found -/

theorem findSome?_rekey {α β : Type} {p : Node → Option α} {p' : Node → Option β} (g : α → β)
    (h : ∀ c ∈ nodes, p' (c.rekey f) = (p c).map g) :
    (nodes.map (rekey f)).findSome? p' = (nodes.findSome? p).map g := by
  induction nodes with
  | nil => rfl
  | cons c rest ih =>
      obtain ⟨hfirst, hrest⟩ := List.forall_mem_cons.mp h
      rw [List.map_cons, List.findSome?_cons, List.findSome?_cons, hfirst, ih hrest]
      cases p c <;> rfl

/-- A key is told from all other keys of a tree. -/
def Singled (f : Nat → Nat) (key : Nat) (node : Node) : Prop :=
  ∀ k ∈ node.keys, f k = f key → k = key

theorem Singled.child (h : Singled f key node) {c : Node} (hc : c ∈ node.children) :
    Singled f key c := by
  intro k hk
  refine h k ?_
  rw [keys_eq]
  exact List.mem_cons_of_mem _ (List.mem_flatMap.mpr ⟨c, hc, hk⟩)

theorem Singled.key_eq_iff (h : Singled f key node) :
    (node.rekey f).key = f key ↔ node.key = key := by
  rw [key_rekey]
  refine ⟨h node.key ?_, congrArg f⟩
  rw [keys_eq]
  exact List.mem_cons_self

theorem pathTo?_rekey (h : Singled f key node) :
    (node.rekey f).pathTo? (f key) = (node.pathTo? key).map (List.map (rekey f)) := by
  induction node using children_induction with
  | step node ih =>
      rw [pathTo?_eq, pathTo?_eq key]
      simp only [h.key_eq_iff]
      split
      · rfl
      · rw [children_rekey, findSome?_rekey _ fun c hc => ih c hc (h.child hc), Option.map_map,
          Option.map_map]
        rfl

theorem parentOf?_rekey (h : Singled f key node) :
    (node.rekey f).parentOf? (f key) = (node.parentOf? key).map (rekey f) := by
  induction node using children_induction with
  | step node ih =>
      have hany : (node.children.map (rekey f)).any (·.key == f key) =
          node.children.any (·.key == key) := by
        rw [Bool.eq_iff_iff, List.any_map, List.any_eq_true, List.any_eq_true]
        refine exists_congr fun c => and_congr_right fun hc => ?_
        rw [Function.comp_apply, beq_iff_eq, beq_iff_eq]
        exact (h.child hc).key_eq_iff
      rw [parentOf?_eq, parentOf?_eq key, children_rekey, hany]
      split
      · rfl
      · exact findSome?_rekey _ fun c hc => ih c hc (h.child hc)

/-! ## Edits -/

/-- An edit and the same edit of rekeyed nodes. -/
theorem modify_rekey {g g' : Node → Node} (h : Singled f key node)
    (hg : ∀ n, node.Encloses n → n.key = key → g' (n.rekey f) = (g n).rekey f) :
    (node.rekey f).modify (f key) g' = (node.modify key g).rekey f := by
  induction node using children_induction with
  | step node ih =>
      rw [modify_eq, modify_eq key]
      simp only [h.key_eq_iff]
      split
      · rename_i hkey
        exact hg node (.self node) hkey
      · have hchildren : (node.children.map (rekey f)).map (modify (f key) g') =
            (node.children.map (modify key g)).map (rekey f) := by
          rw [List.map_map, List.map_map]
          exact List.map_congr_left fun c hc =>
            ih c hc (h.child hc) fun n hn => hg n (.child hc hn)
        rw [children_rekey, hchildren, rekey_eq, rekey_eq f { node with children := _ }]

theorem setAttribute_rekey (f : Nat → Nat) (node : Node) (name : String) (value : Option String) :
    (node.rekey f).setAttribute name value = (node.setAttribute name value).rekey f := by
  rw [rekey_eq, rekey_eq f (node.setAttribute name value)]
  rfl

theorem setText_rekey (f : Nat → Nat) (node : Node) (text : String) :
    (node.rekey f).setText text = (node.setText text).rekey f := by
  rw [rekey_eq, rekey_eq f (node.setText text)]
  rfl

theorem insertChild_rekey (f : Nat → Nat) (node child : Node) (index : Option Int) :
    (node.rekey f).insertChild (child.rekey f) index = (node.insertChild child index).rekey f := by
  rw [rekey_eq f (node.insertChild child index)]
  simp only [insertChild, rekey_eq f node, List.map_append, List.map_cons, List.map_take,
    List.map_drop, List.length_map]

theorem removeChild_rekey (h : Singled f key node) :
    (node.rekey f).removeChild (f key) = (node.removeChild key).rekey f := by
  have hchildren : (node.children.map (rekey f)).filter (fun c => c.key != f key) =
      (node.children.filter fun c => c.key != key).map (rekey f) := by
    rw [List.filter_map]
    refine congrArg _ (List.filter_congr fun c hc => ?_)
    rw [Bool.eq_iff_iff, Function.comp_apply, bne_iff_ne, bne_iff_ne]
    exact not_congr (h.child hc).key_eq_iff
  rw [removeChild, children_rekey, hchildren, rekey_eq, rekey_eq f (node.removeChild key)]
  rfl

theorem replaceChild_rekey (h : Singled f key node) (replacement : Node) :
    (node.rekey f).replaceChild (f key) (replacement.rekey f) =
      (node.replaceChild key replacement).rekey f := by
  rw [rekey_eq f (node.replaceChild key replacement), rekey_eq f node]
  unfold replaceChild
  dsimp only
  rw [List.map_map, List.map_map]
  refine congrArg (Node.mk (f node.key) node.name node.attributes node.text · node.tail)
    (List.map_congr_left fun c hc => ?_)
  simp only [Function.comp_apply, (h.child hc).key_eq_iff]
  split
  · rw [rekey_eq f replacement, rekey_eq f c, rekey_eq]
  · rfl

end Node

/-! ## Trees -/

namespace Tree

variable {f : Nat → Nat} {tree tree' : Tree} {node : Node} {key parent : Nat}

/-- A tree, and the same tree with other keys. -/
structure Rekeyed (f : Nat → Nat) (tree tree' : Tree) : Prop where
  keyed : tree.Keyed
  root : tree'.root = tree.root.rekey f
  apart : ∀ k < tree.nextKey, ∀ k' < tree.nextKey, f k = f k' → k = k'
  below : ∀ k < tree.nextKey, f k < tree'.nextKey

/-- A keyed tree has other keys than when it is numbered anew. -/
theorem exists_rekeyed (h : tree.Keyed) : ∃ f, Rekeyed f (ofNode tree.root) tree := by
  obtain ⟨-, hnext⟩ := tree.root.counted 0
  have hcount : (ofNode tree.root).nextKey = tree.root.keys.length := hnext.trans (Nat.zero_add _)
  let f k := tree.root.keys.getD k 0
  have hf : ∀ k (hk : k < tree.root.keys.length), f k = tree.root.keys[k] :=
    fun k hk => List.getD_eq_getElem?_getD.trans (by rw [List.getElem?_eq_getElem hk]; rfl)
  refine ⟨f, keyed_ofNode _, (tree.root.restores f 0 ?_).symm, ?_, ?_⟩
  · refine List.ext_getElem (by simp) fun k hk hk' => ?_
    rw [List.getElem_map, List.getElem_range', ← hf k hk', Nat.one_mul, Nat.zero_add]
  · intro k hk k' hk' heq
    rw [hcount] at hk hk'
    rw [hf k hk, hf k' hk'] at heq
    exact h.nodup.getElem_inj_iff.mp heq
  · intro k hk
    rw [hcount] at hk
    rw [hf k hk]
    exact h.below _ (List.getElem_mem hk)

namespace Rekeyed

theorem singled (h : Rekeyed f tree tree') (hkey : key ∈ tree.root.keys)
    (hnode : tree.root.Encloses node) : node.Singled f key := by
  intro k hk heq
  obtain ⟨n, hn, rfl⟩ := Node.mem_keys.mp hk
  refine h.apart _ (h.keyed.below _ ?_) _ (h.keyed.below key hkey) heq
  exact Node.mem_keys.mpr ⟨n, hnode.trans hn, rfl⟩

/-! ### What is found -/

theorem findId? (h : Rekeyed f tree tree') (id : String) :
    tree'.findId? id = (tree.findId? id).map (Node.rekey f) := by
  rw [Tree.findId?, h.root, Node.preorder_rekey, List.find?_map, Tree.findId?]
  simp only [Function.comp_def, Node.attribute?_rekey]

theorem ancestors (h : Rekeyed f tree tree') (hkey : key ∈ tree.root.keys) :
    tree'.ancestors (f key) = (tree.ancestors key).map (Node.rekey f) := by
  rw [Tree.ancestors, h.root, Node.pathTo?_rekey (h.singled hkey (.self _)), Tree.ancestors,
    List.map_reverse]
  cases tree.root.pathTo? key <;> rfl

theorem parentOf? (h : Rekeyed f tree tree') (hkey : key ∈ tree.root.keys) :
    tree'.parentOf? (f key) = (tree.parentOf? key).map (Node.rekey f) := by
  rw [Tree.parentOf?, h.root, Node.parentOf?_rekey (h.singled hkey (.self _)), Tree.parentOf?]

/-! ### Edits -/

/-- The same edit under both keys. -/
theorem modify (h : Rekeyed f tree tree') {g g' : Node → Node} (hkey : key ∈ tree.root.keys)
    (hkeyed : (tree.modify key g).Keyed)
    (hg : ∀ n, tree.root.Encloses n → n.key = key → g' (n.rekey f) = (g n).rekey f) :
    Rekeyed f (tree.modify key g) (tree'.modify (f key) g') where
  keyed := hkeyed
  root := by
    rw [Tree.modify, h.root]
    exact Node.modify_rekey (h.singled hkey (.self _)) hg
  apart := h.apart
  below := h.below

/-- A tree from elsewhere gets keys that are new on both sides. -/
theorem adopt (h : Rekeyed f tree tree') (child : Node) :
    Rekeyed (Node.extend f tree.nextKey tree'.nextKey) (tree.adopt child).2
      (tree'.adopt child).2 := by
  obtain ⟨-, hnext⟩ := child.counted tree.nextKey
  obtain ⟨-, hnext'⟩ := child.counted tree'.nextKey
  have hcount : (tree.adopt child).2.nextKey = tree.nextKey + child.keys.length := hnext
  have hcount' : (tree'.adopt child).2.nextKey = tree'.nextKey + child.keys.length := hnext'
  refine ⟨⟨h.keyed.nodup, fun k hk => ?_⟩, ?_, fun k hk k' hk' heq => ?_, fun k hk => ?_⟩
  · rw [hcount]
    exact Nat.lt_add_right _ (h.keyed.below k hk)
  · exact h.root.trans (Node.rekey_congr fun k hk =>
      (Node.extend_of_lt f _ (h.keyed.below k hk)).symm)
  · -- old keys stay below the new ones
    by_cases hlt : k < tree.nextKey <;> by_cases hlt' : k' < tree.nextKey
    · rw [Node.extend_of_lt f _ hlt, Node.extend_of_lt f _ hlt'] at heq
      exact h.apart k hlt k' hlt' heq
    · rw [Node.extend_of_lt f _ hlt, Node.extend_of_le f _ (Nat.not_lt.mp hlt')] at heq
      have := h.below k hlt
      omega
    · rw [Node.extend_of_le f _ (Nat.not_lt.mp hlt), Node.extend_of_lt f _ hlt'] at heq
      have := h.below k' hlt'
      omega
    · rw [Node.extend_of_le f _ (Nat.not_lt.mp hlt),
        Node.extend_of_le f _ (Nat.not_lt.mp hlt')] at heq
      omega
  · rw [hcount] at hk
    rw [hcount']
    by_cases hlt : k < tree.nextKey
    · rw [Node.extend_of_lt f _ hlt]
      exact Nat.lt_add_right _ (h.below k hlt)
    · rw [Node.extend_of_le f _ (Nat.not_lt.mp hlt)]
      omega

theorem remove (h : Rekeyed f tree tree') (hparent : parent ∈ tree.root.keys)
    (hkey : key ∈ tree.root.keys) :
    Rekeyed f (tree.remove parent key) (tree'.remove (f parent) (f key)) :=
  h.modify hparent (h.keyed.trim fun n => n.keys_removeChild key) fun _ hn _ =>
    Node.removeChild_rekey (h.singled hkey hn)

theorem insert (h : Rekeyed f tree tree') (hparent : parent ∈ tree.root.keys) (child : Node)
    (index : Option Int) : ∃ f', Rekeyed f' (tree.insert parent child index)
      (tree'.insert (f parent) child index) := by
  refine ⟨Node.extend f tree.nextKey tree'.nextKey, ?_⟩
  rw [← Node.extend_of_lt f tree'.nextKey (h.keyed.below parent hparent)]
  refine (h.adopt child).modify hparent (h.keyed.insert parent child index) fun n _ _ => ?_
  rw [← Node.insertChild_rekey]
  exact congrArg (Node.insertChild _ · index) (Node.rekey_number f child _ _).symm

theorem replace (h : Rekeyed f tree tree') (hparent : parent ∈ tree.root.keys)
    (hkey : key ∈ tree.root.keys) (replacement : Node) :
    ∃ f', Rekeyed f' (tree.replace parent key replacement)
      (tree'.replace (f parent) (f key) replacement) := by
  have hadopted := h.adopt replacement
  refine ⟨Node.extend f tree.nextKey tree'.nextKey, ?_⟩
  rw [← Node.extend_of_lt f tree'.nextKey (h.keyed.below parent hparent),
    ← Node.extend_of_lt f tree'.nextKey (h.keyed.below key hkey)]
  refine hadopted.modify hparent (h.keyed.replace parent key replacement) fun n hn _ => ?_
  rw [← Node.replaceChild_rekey (hadopted.singled hkey hn)]
  exact congrArg (Node.replaceChild _ _) (Node.rekey_number f replacement _ _).symm

end Rekeyed

end Tree

end Xml

/-! ## Documents -/

namespace Document

open Xml

variable {doc doc' : Document} {f : Nat → Nat}

/-- Two documents are the same but for their keys: numbered anew, they are equal. -/
def Same (doc doc' : Document) : Prop :=
  Tree.ofNode doc.tree.root = Tree.ofNode doc'.tree.root ∧ doc.prefixes = doc'.prefixes

namespace Same

theorem refl (doc : Document) : doc.Same doc := ⟨rfl, rfl⟩

theorem symm (h : doc.Same doc') : doc'.Same doc := ⟨h.1.symm, h.2.symm⟩

theorem trans {doc'' : Document} (h : doc.Same doc') (h' : doc'.Same doc'') : doc.Same doc'' :=
  ⟨h.1.trans h'.1, h.2.trans h'.2⟩

theorem of_rekeyed (h : doc.tree.Rekeyed f doc'.tree) (hprefixes : doc'.prefixes = doc.prefixes) :
    doc.Same doc' := by
  refine ⟨?_, hprefixes.symm⟩
  rw [Tree.ofNode, Tree.ofNode, h.root, Node.number_rekey]

theorem number_eq (h : doc.Same doc') :
    (doc.tree.root.number 0).1 = (doc'.tree.root.number 0).1 := congrArg Tree.root h.1

theorem rootTag_eq (h : doc.Same doc') : doc.rootTag = doc'.rootTag := by
  have htag : ∀ node : Node, (node.number 0).1.tag = node.tag := fun node => by
    rw [Node.number_eq]
    rfl
  rw [rootTag, rootTag, ← htag, h.number_eq, htag]

/-- The same is written for both. -/
theorem write_eq (h : doc.Same doc') (registry : Registry) :
    doc.write registry = doc'.write registry := by
  have hrender : ∀ (registry : Registry) (node : Node),
      render registry (node.number 0).1 = render registry node := fun registry node => by
    unfold render Labels.ofTree
    rw [names_number]
    simp only [nodeChars_number]
  unfold Document.write
  rw [← h.2]
  simp only [← hrender _ doc.tree.root, ← hrender _ doc'.tree.root, h.number_eq]

end Same

end Document

end Cuesheet
