import Cuesheet.Proofs.Patch.Sparing

/-!
# What an edit is aimed at

An edit changes its target, or the parent of its target but no attribute then, and names the node
that it changed. So what stands around the target stands around the named node afterwards, with the
attributes that it had (`Aimed.around`). A patch is an edit of the node that it finds by its id
(`aimed_of_patch`).
-/

namespace Cuesheet

open Xml (Node)

namespace Xml.Node

variable {root a b n place target : Node} {f : Node → Node}

/-- Of two nodes around a node one is around the other. -/
theorem encloses_or_encloses (h : root.keys.Nodup) (ha : root.Encloses a) (hb : root.Encloses b)
    (han : a.Encloses n) (hbn : b.Encloses n) : a.Encloses b ∨ b.Encloses a := by
  induction ha with
  | self => exact .inl hb
  | child mem inner ih =>
      cases hb with
      | self => exact .inr (.child mem inner)
      | child mem' inner' =>
          obtain rfl := child_unique h mem mem' (inner.trans han) (inner'.trans hbn)
          exact ih (keys_nodup_of_mem h mem) inner' han

/-- What is around a node and not the node itself is around its parent. -/
theorem encloses_parent (h : root.keys.Nodup) (ha : root.Encloses a) (hplace : root.Encloses place)
    (hchild : target ∈ place.children) (htarget : a.Encloses target) (hne : a ≠ target) :
    a.Encloses place := by
  rcases encloses_or_encloses h ha hplace htarget (.child hchild (.self target)) with hover | hunder
  · exact hover
  · cases hunder with
    | self => exact .self _
    | @child _ c _ mem inner =>
        obtain rfl := child_unique (keys_nodup_of_encloses h hplace) mem hchild
          (inner.trans htarget) (.self target)
        exact absurd (htarget.antisymm inner) hne

/-- An edit of a node leaves what is around the node around it. -/
theorem encloses_modify_around (h : root.keys.Nodup) (ha : root.Encloses a)
    (hplace : a.Encloses place) :
    (root.modify place.key f).Encloses (a.modify place.key f) ∧
      (a.modify place.key f).Encloses (f place) := by
  have hsame : ∀ b, root.Encloses b → b.key = place.key → b = place := fun b hb hkey =>
    eq_of_key_eq h hb (ha.trans hplace) hkey
  constructor
  · refine encloses_modify_inner ha fun b hb hba hkey => ?_
    obtain rfl := hsame b hb hkey
    exact hba.antisymm hplace
  · have hinner := encloses_modify_inner (f := f) hplace fun b hb _ hkey =>
      hsame b (ha.trans hb) hkey
    rwa [modify_eq place.key f place, if_pos rfl] at hinner

end Xml.Node

namespace Document

/-! ## Edits -/

/-- One edit of a document, with the nodes that it needs at hand. -/
inductive Edit where
  | setAttribute (node : Node) (name : String) (value : Option String)
  | setText (node : Node) (text : String)
  | insert (parent child : Node) (index : Option Int)
  | remove (node : Node)
  | replace (node replacement : Node)

namespace Edit

def target : Edit → Node
  | setAttribute node _ _ => node
  | setText node _ => node
  | insert parent _ _ => parent
  | remove node => node
  | replace node _ => node

def apply (doc : Document) : Edit → Except RootFault (Document × Mutation)
  | setAttribute node name value => .ok (doc.setAttribute node name value)
  | setText node text => .ok (doc.setText node text)
  | insert parent child index => .ok (doc.insert parent child index)
  | remove node => doc.remove node
  | replace node replacement => doc.replace node replacement

end Edit

variable {doc doc' : Document} {m : Mutation} {target a : Node}

/-- An edit has changed a target, or its parent without an attribute of it, and names what it
changed. -/
def Aimed (doc doc' : Document) (m : Mutation) (target : Node) : Prop :=
  ∃ place f, Patch.Edited doc doc' m place f ∧
    (place = target ∨ target ∈ place.children ∧ ∀ n, (f n).attributes = n.attributes)

/-- An edit of the parent, which keeps its key and its attributes. -/
theorem aimed_of_parent {parent : Node} {f : Node → Node} (hdoc : doc.tree.Keyed)
    (htarget : doc.tree.root.Encloses target)
    (hparent : doc.tree.parentOf? target.key = some parent)
    (hchanged : doc'.tree.root = doc.tree.root.modify parent.key f)
    (hkept : ∀ n, (f n).key = n.key ∧ (f n).attributes = n.attributes)
    (hprefixes : doc'.prefixes = doc.prefixes) (kind : MutationKind) :
    Aimed doc doc' (doc'.mutation kind parent) target := by
  obtain ⟨hinside, hchild⟩ := Node.mem_parentOf? hdoc.nodup htarget hparent
  exact ⟨parent, f, ⟨hinside, hchanged, fun n => (hkept n).1, hprefixes, kind, none, rfl⟩,
    .inr ⟨hchild, fun n => (hkept n).2⟩⟩

theorem aimed_of_edit {e : Edit} (hdoc : doc.tree.Keyed)
    (htarget : doc.tree.root.Encloses e.target) (h : e.apply doc = .ok (doc', m)) :
    Aimed doc doc' m e.target ∧ doc'.tree.Keyed := by
  cases e with
  | setAttribute node name value =>
      cases h
      exact ⟨⟨node, _, ⟨htarget, rfl, fun _ => rfl, rfl, _, _, rfl⟩, .inl rfl⟩,
        keyed_setAttribute hdoc node name value⟩
  | setText node text =>
      cases h
      exact ⟨⟨node, _, ⟨htarget, rfl, fun _ => rfl, rfl, _, _, rfl⟩, .inl rfl⟩,
        hdoc.trim fun n => n.keys_setText text⟩
  | insert parent child index =>
      cases h
      exact ⟨⟨parent, _, ⟨htarget, rfl, fun _ => rfl, rfl, _, _, rfl⟩, .inl rfl⟩,
        hdoc.insert parent.key child index⟩
  | remove node =>
      have hremove : doc.remove node = .ok (doc', m) := h
      refine ⟨?_, keyed_of_remove hdoc hremove⟩
      unfold Document.remove at hremove
      cases hparent : doc.tree.parentOf? node.key with
      | none => rw [hparent] at hremove; cases hremove
      | some parent =>
          rw [hparent] at hremove
          cases hremove
          refine aimed_of_parent (f := fun n => n.removeChild node.key) hdoc htarget hparent ?_
            (fun _ => ⟨rfl, rfl⟩) ?_ _ <;> rfl
  | replace node replacement =>
      have hreplace : doc.replace node replacement = .ok (doc', m) := h
      refine ⟨?_, keyed_of_replace hdoc hreplace⟩
      unfold Document.replace at hreplace
      cases hparent : doc.tree.parentOf? node.key with
      | none => rw [hparent] at hreplace; cases hreplace
      | some parent =>
          rw [hparent] at hreplace
          cases hreplace
          refine aimed_of_parent
            (f := fun n => n.replaceChild node.key (doc.tree.adopt replacement).1) hdoc htarget
            hparent ?_ (fun _ => ⟨rfl, rfl⟩) ?_ _ <;> rfl

theorem Aimed.root_key (h : Aimed doc doc' m target) :
    doc'.tree.root.key = doc.tree.root.key := by
  obtain ⟨place, f, hedited, -⟩ := h
  rw [hedited.changed, Node.modify_eq]
  split
  · exact hedited.key _
  · rfl

/-- What stands around the target of an edit stands around the node that the edit names, and keeps
its attributes. -/
theorem Aimed.around (h : Aimed doc doc' m target) (hdoc : doc.tree.Keyed)
    (ha : doc.tree.root.Encloses a) (htarget : a.Encloses target) (hne : a ≠ target) :
    ∃ a' named, doc'.tree.root.Encloses a' ∧ a'.Encloses named ∧ named.key = m.target.key ∧
      a'.key = a.key ∧ a'.attributes = a.attributes := by
  obtain ⟨place, f, hedited, hnear⟩ := h
  have hplace : a.Encloses place := by
    rcases hnear with rfl | ⟨hchild, -⟩
    · exact htarget
    · exact Node.encloses_parent hdoc.nodup ha hedited.inside hchild htarget hne
  obtain ⟨houter, hinner⟩ := Node.encloses_modify_around (f := f) hdoc.nodup ha hplace
  rw [← hedited.changed] at houter
  refine ⟨_, _, houter, hinner, ?_, ?_⟩
  · rw [hedited.key, hedited.told_key]
  · rw [Node.modify_eq]
    by_cases hkey : a.key = place.key
    · rw [if_pos hkey]
      obtain rfl := Node.eq_of_key_eq hdoc.nodup ha hedited.inside hkey
      rcases hnear with rfl | ⟨-, hattributes⟩
      · exact absurd rfl hne
      · exact ⟨hedited.key a, hattributes a⟩
    · rw [if_neg hkey]
      exact ⟨rfl, rfl⟩

end Document

namespace Patch

open Document

variable {doc doc' : Document} {m : Mutation} {patch : Patch}

/-! ## Patches -/

/-- The node that a patch finds by its id. -/
def aim? (doc : Document) : Patch → Option Node
  | .sealScene id => doc.tree.findId? id
  | patch => target? doc patch

/-- The edit that a patch asks for at its target. -/
inductive Asks (doc : Document) (target : Node) : Patch → Edit → Prop
  | appendNode {parentId markup : String} {index : Option Int} {fragment : Node}
      (read : Document.fragment doc.prefixes markup = .ok fragment) :
      Asks doc target (.appendNode parentId markup index) (.insert target fragment index)
  | removeNode (id : String) : Asks doc target (.removeNode id) (.remove target)
  | setAttr (id name : String) (value : Option String) :
      Asks doc target (.setAttr id name value) (.setAttribute target name value)
  | setText (id text : String) : Asks doc target (.setText id text) (.setText target text)
  | replaceSubtree {id markup : String} {fragment : Node}
      (read : Document.fragment doc.prefixes markup = .ok fragment) :
      Asks doc target (.replaceSubtree id markup) (.replace target fragment)
  | sealScene (id : String) :
      Asks doc target (.sealScene id) (.setAttribute target "sealed" (some "true"))

theorem Asks.target_eq {target : Node} {e : Edit} (h : Asks doc target patch e) :
    e.target = target := by
  cases h <;> rfl

theorem nodeOf_ok {markup : String} {node : Node} (h : nodeOf doc markup = .ok node) :
    fragment doc.prefixes markup = .ok node := by
  unfold nodeOf at h
  split at h
  · cases h
  · cases h
    assumption

theorem edit_of_patch {enforce : Bool} (h : patch.apply enforce doc = .ok (doc', m)) :
    ∃ target e, aim? doc patch = some target ∧ Asks doc target patch e ∧
      e.apply doc = .ok (doc', m) := by
  cases patch with
  | appendNode parentId markup index =>
      obtain ⟨parent, hparent, h⟩ := ok_of_bind h
      obtain ⟨-, -, h⟩ := ok_of_bind h
      obtain ⟨node, hnode, h⟩ := ok_of_bind h
      cases h
      exact ⟨parent, .insert parent node index, target_ok hparent, .appendNode (nodeOf_ok hnode),
        rfl⟩
  | removeNode id =>
      obtain ⟨node, hnode, h⟩ := ok_of_bind h
      obtain ⟨-, -, h⟩ := ok_of_bind h
      refine ⟨node, .remove node, inner_ok hnode, .removeNode id, ?_⟩
      cases hremove : doc.remove node with
      | error fault => rw [hremove] at h; cases h
      | ok result => rw [hremove] at h; cases h; exact hremove
  | setAttr id name value =>
      obtain ⟨node, hnode, h⟩ := ok_of_bind h
      obtain ⟨-, -, h⟩ := ok_of_bind h
      cases h
      exact ⟨node, .setAttribute node name value, target_ok hnode, .setAttr id name value, rfl⟩
  | setText id text =>
      obtain ⟨node, hnode, h⟩ := ok_of_bind h
      obtain ⟨-, -, h⟩ := ok_of_bind h
      cases h
      exact ⟨node, .setText node text, target_ok hnode, .setText id text, rfl⟩
  | replaceSubtree id markup =>
      obtain ⟨node, hnode, h⟩ := ok_of_bind h
      obtain ⟨-, -, h⟩ := ok_of_bind h
      obtain ⟨replacement, hreplacement, h⟩ := ok_of_bind h
      refine ⟨node, .replace node replacement, inner_ok hnode,
        .replaceSubtree (nodeOf_ok hreplacement), ?_⟩
      cases hreplace : doc.replace node replacement with
      | error fault => rw [hreplace] at h; cases h
      | ok result => rw [hreplace] at h; cases h; exact hreplace
  | sealScene id =>
      simp only [apply] at h
      split at h
      · cases h
      · rename_i node hfind
        split at h
        · cases h
          exact ⟨node, .setAttribute node "sealed" (some "true"), hfind, .sealScene id, rfl⟩
        · cases h

theorem aim?_inside {target : Node} (h : aim? doc patch = some target) :
    doc.tree.root.Encloses target := by
  unfold aim? at h
  split at h
  · exact Node.mem_preorder.mp (List.mem_of_find?_eq_some h)
  · exact target?_inside h

/-- A patch that is applied is aimed at the node that it finds. -/
theorem aimed_of_patch {enforce : Bool} (hdoc : doc.tree.Keyed)
    (h : patch.apply enforce doc = .ok (doc', m)) :
    ∃ target, aim? doc patch = some target ∧ Aimed doc doc' m target := by
  obtain ⟨target, e, haim, hasks, hedit⟩ := edit_of_patch h
  obtain rfl := hasks.target_eq
  exact ⟨e.target, haim, (aimed_of_edit hdoc (aim?_inside haim) hedit).1⟩

end Patch

end Cuesheet
