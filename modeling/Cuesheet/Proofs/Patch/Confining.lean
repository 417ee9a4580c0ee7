import Cuesheet.Proofs.Document.Pieces
import Cuesheet.Proofs.Patch.Aiming

/-!
# What a patch leaves of a document

A patch that keeps to its target (`Confined`) exchanges the pieces of its target for others and
keeps all other pieces of the document, the text around the target among them. Every patch does
(`confined_iff`), unless it removes a node that text follows: that text goes with the node.
-/

namespace Cuesheet

open Xml (Node Piece)

namespace Xml.Node

/-- The place of a new child among `count` children: an index before the first or behind the last
stands for these, and no index for the end. -/
def position (count : Nat) : Option Int → Nat
  | none => count
  | some index => if index < 0 then 0 else min index.toNat count

theorem insertChild_eq (node child : Node) (index : Option Int) :
    ∃ front back, node.children = front ++ back ∧
      front.length = position node.children.length index ∧
      node.insertChild child index = { node with children := front ++ child :: back } := by
  cases index with
  | none =>
      refine ⟨node.children, [], (List.append_nil _).symm, rfl, ?_⟩
      simp only [insertChild, List.take_length, List.drop_length]
  | some index =>
      refine ⟨node.children.take index.toNat, node.children.drop index.toNat,
        (List.take_append_drop _ _).symm, ?_, rfl⟩
      rw [List.length_take, position]
      split <;> omega

end Xml.Node

namespace Document

open Patch

/-- The pieces of a document. -/
def pieces (doc : Document) : List Piece := doc.tree.root.pieces none

/-- What a patch puts in the place of the pieces of its target: nothing if it removes the target,
the pieces of a fragment if it replaces the target. A fragment that it appends stands between two
children. Otherwise only an attribute changes, or the contents. -/
def Exchanged (doc : Document) (target : Node) (parent : Option Nat) (new : List Piece) :
    Patch → Prop
  | .appendNode _ markup index => ∃ node front back,
      fragment doc.prefixes markup = .ok node ∧ target.children = front ++ back ∧
      front.length = Node.position target.children.length index ∧
      new = target.opening parent :: (target.text.map .char ++
        Node.piecesAll (some target.key) front ++
        (doc.tree.adopt node).1.pieces (some target.key) ++
        Node.piecesAll (some target.key) back)
  | .removeNode _ => new = []
  | .setAttr _ name value =>
      new = (target.setAttribute (doc.qualify name) value).opening parent :: target.contents
  | .setText _ text => new = target.opening parent :: text.toList.map .char
  | .replaceSubtree _ markup => ∃ node, fragment doc.prefixes markup = .ok node ∧
      new = (doc.tree.adopt node).1.pieces parent
  | .sealScene _ =>
      new = (target.setAttribute "sealed" (some "true")).opening parent :: target.contents

/-- A patch has changed nothing but the pieces of its target. -/
def Confined (doc doc' : Document) (patch : Patch) : Prop :=
  ∃ target parent front back new, aim? doc patch = some target ∧
    doc.pieces = front ++ target.pieces parent ++ back ∧
    doc'.pieces = front ++ new ++ back ∧
    Exchanged doc target parent new patch

variable {doc doc' : Document} {m : Mutation} {patch : Patch} {target : Node}

/-- No text follows a fragment. -/
theorem adopt_tail {markup : String} {node : Node}
    (h : fragment doc.prefixes markup = .ok node) : (doc.tree.adopt node).1.tail = [] := by
  rw [Xml.Tree.adopt, Node.number_eq]
  unfold fragment at h
  split at h
  · cases h
  · split at h
    · cases h
    · cases h
      rfl

/-- An edit of the target keeps the pieces around it. -/
theorem pieces_edit (hdoc : doc.tree.Keyed) (htarget : doc.tree.root.Encloses target) :
    ∃ front parent back, doc.pieces = front ++ target.pieces parent ++ back ∧
      ∀ f : Node → Node, (∀ n, (f n).tail = n.tail) →
        (doc.tree.root.modify target.key f).pieces none =
          front ++ ((f target).opening parent :: (f target).contents) ++ back := by
  obtain ⟨front, parent, back, hpieces, hmodify⟩ := Node.pieces_modify hdoc.nodup htarget none
  refine ⟨front, parent, back, hpieces, fun f hf => ?_⟩
  rw [hmodify f hf, Node.pieces_eq]

/-- A removed node takes its pieces away, and the text that follows it. -/
theorem pieces_remove (hdoc : doc.tree.Keyed) (htarget : doc.tree.root.Encloses target)
    (h : doc.remove target = .ok (doc', m)) :
    ∃ front parent back,
      doc.pieces = front ++ target.pieces parent ++ (target.tail.map .char ++ back) ∧
      doc'.pieces = front ++ back := by
  unfold Document.remove at h
  cases hparent : doc.tree.parentOf? target.key with
  | none => rw [hparent] at h; cases h
  | some place =>
      rw [hparent] at h
      cases h
      obtain ⟨hplace, hchild⟩ := Node.mem_parentOf? hdoc.nodup htarget hparent
      obtain ⟨front, parent, back, hpieces, hremoved, -⟩ :=
        Node.pieces_modify_child hdoc.nodup hplace hchild none
      exact ⟨front, parent, back, hpieces, hremoved⟩

/-- A replaced node leaves the text that follows it. -/
theorem pieces_replace {node : Node} (hdoc : doc.tree.Keyed)
    (htarget : doc.tree.root.Encloses target) (h : doc.replace target node = .ok (doc', m)) :
    ∃ front parent back, doc.pieces = front ++ target.pieces parent ++ back ∧
      doc'.pieces = front ++ (doc.tree.adopt node).1.pieces parent ++ back := by
  unfold Document.replace at h
  cases hparent : doc.tree.parentOf? target.key with
  | none => rw [hparent] at h; cases h
  | some place =>
      rw [hparent] at h
      cases h
      obtain ⟨hplace, hchild⟩ := Node.mem_parentOf? hdoc.nodup htarget hparent
      obtain ⟨front, parent, back, hpieces, -, hreplaced⟩ :=
        Node.pieces_modify_child hdoc.nodup hplace hchild none
      exact ⟨front, parent, _, hpieces, hreplaced _⟩

/-- Where text follows a removed node, more text is gone than that of the node. -/
theorem tail_of_confined {id : String} (hdoc : doc.tree.Keyed)
    (haim : aim? doc (.removeNode id) = some target) (h : doc.remove target = .ok (doc', m))
    (hconfined : Confined doc doc' (.removeNode id)) : target.tail = [] := by
  obtain ⟨target', parent, front, back, new, haim', hpieces, hpieces', rfl⟩ := hconfined
  obtain rfl := Option.some.inj (haim.symm.trans haim')
  obtain ⟨front₀, parent₀, back₀, hpieces₀, hpieces₀'⟩ :=
    pieces_remove hdoc (aim?_inside haim) h
  have hlength := congrArg (fun pieces => (pieces.filterMap Piece.char?).length)
    (hpieces.symm.trans hpieces₀)
  have hlength' := congrArg (fun pieces => (pieces.filterMap Piece.char?).length)
    (hpieces'.symm.trans hpieces₀')
  simp only [List.filterMap_append, Node.text_pieces, Piece.filterMap_chars, List.filterMap_nil,
    List.length_append, List.length_nil] at hlength hlength'
  exact List.eq_nil_of_length_eq_zero (by omega)

/-- A patch changes only what it addresses, text included, unless it removes a node that text
follows. -/
theorem confined_iff {enforce : Bool} (hdoc : doc.tree.Keyed)
    (h : patch.apply enforce doc = .ok (doc', m)) :
    Confined doc doc' patch ↔
      ∀ id target, patch = .removeNode id → aim? doc patch = some target → target.tail = [] := by
  obtain ⟨target, e, haim, hasks, hedit⟩ := edit_of_patch h
  have htarget := aim?_inside haim
  constructor
  · rintro hconfined id target' rfl haim'
    obtain rfl := Option.some.inj (haim.symm.trans haim')
    cases hasks
    exact tail_of_confined hdoc haim hedit hconfined
  · intro htail
    obtain ⟨front, parent, back, hpieces, hmodify⟩ := pieces_edit hdoc htarget
    cases hasks with
    | @appendNode _ markup index node hread =>
        cases hedit
        obtain ⟨before, after, hchildren, hposition, hinsert⟩ :=
          target.insertChild_eq (doc.tree.adopt node).1 index
        refine ⟨target, parent, front, back, _, haim, hpieces,
          hmodify (fun n => n.insertChild (doc.tree.adopt node).1 index) fun _ => rfl,
          node, before, after, hread, hchildren, hposition, ?_⟩
        rw [hinsert]
        simp only [Node.contents, Node.opening, Node.piecesAll_append, Node.piecesAll,
          adopt_tail hread, List.map_nil, List.append_nil, List.append_assoc]
    | removeNode id =>
        obtain ⟨front, parent, back, hpieces, hpieces'⟩ := pieces_remove hdoc htarget hedit
        rw [htail id target rfl haim] at hpieces
        refine ⟨target, parent, front, back, [], haim, hpieces, ?_, rfl⟩
        rw [hpieces', List.append_nil]
    | setAttr id name value =>
        cases hedit
        exact ⟨target, parent, front, back, _, haim, hpieces, hmodify _ fun _ => rfl, rfl⟩
    | setText id text =>
        cases hedit
        refine ⟨target, parent, front, back, _, haim, hpieces, hmodify _ fun _ => rfl, ?_⟩
        rw [Exchanged, Node.contents, Node.setText, Node.piecesAll, List.append_nil]
        rfl
    | @replaceSubtree _ markup node hread =>
        obtain ⟨front, parent, back, hpieces, hpieces'⟩ := pieces_replace hdoc htarget hedit
        exact ⟨target, parent, front, back, _, haim, hpieces, hpieces', node, hread, rfl⟩
    | sealScene id =>
        cases hedit
        exact ⟨target, parent, front, back, _, haim, hpieces, hmodify _ fun _ => rfl, rfl⟩

/-- A box after a word, with some text after it. -/
def wordThenBox (after : List Char) : Node where
  name := "vml"
  attributes := [("id", "r")]
  text := "one".toList
  children := [{ name := "box", attributes := [("id", "b")], tail := after }]

def boxing (after : List Char) : Document where
  tree := .ofNode (wordThenBox after)

theorem keyed_boxing (after : List Char) : (boxing after).tree.Keyed :=
  Xml.Tree.keyed_ofNode (wordThenBox after)

theorem removing_confined :
    ∃ doc' m, (Patch.removeNode "b").apply true (boxing []) = .ok (doc', m) ∧
      doc'.tree.root.innerText = "one".toList ∧ Confined (boxing []) doc' (.removeNode "b") := by
  have happly : (Patch.removeNode "b").apply true (boxing []) = .ok (_, _) := rfl
  refine ⟨_, _, happly, by decide, ?_⟩
  refine (confined_iff (keyed_boxing []) happly).mpr fun id target _ haim => ?_
  cases haim
  rfl

theorem removing_unconfined :
    ∃ doc' m, (Patch.removeNode "b").apply true (boxing "two".toList) = .ok (doc', m) ∧
      (boxing "two".toList).tree.root.innerText = "onetwo".toList ∧
      doc'.tree.root.innerText = "one".toList ∧
      ¬ Confined (boxing "two".toList) doc' (.removeNode "b") := by
  refine ⟨_, _, rfl, by decide, by decide, fun hconfined => ?_⟩
  have htail := tail_of_confined (keyed_boxing "two".toList) rfl rfl hconfined
  cases htail

end Document

end Cuesheet
