import Cuesheet.Proofs.Document.Rekeying
import Cuesheet.Proofs.Patch.Sparing

/-!
# Patches of copies

What a patch makes of a document does not depend on how the nodes in it are told apart: with two
documents that are the same but for their keys it fails alike, or makes the same of both but for
their keys (`apply_same`). So does a batch (`applyAll_same`).
-/

namespace Cuesheet.Patch

open Document
open Xml (Node Tree)

variable {doc doc' : Document} {f : Nat → Nat} (enforce : Bool)

/-! ## Results that agree -/

/-- Both fail alike, or both give something, and what they give is related. -/
inductive Agree {ε α β : Type} (R : α → β → Prop) : Except ε α → Except ε β → Prop
  | failed (fault : ε) : Agree R (.error fault) (.error fault)
  | given {a : α} {b : β} (related : R a b) : Agree R (.ok a) (.ok b)

namespace Agree

variable {ε α β γ δ : Type} {R : α → β → Prop} {S : γ → δ → Prop} {x : Except ε α}
  {x' : Except ε β}

theorem same (x : Except ε α) : Agree Eq x x := by
  cases x with
  | error fault => exact .failed fault
  | ok a => exact .given rfl

theorem bind {k : α → Except ε γ} {k' : β → Except ε δ} (h : Agree R x x')
    (hk : ∀ a b, R a b → Agree S (k a) (k' b)) : Agree S (x >>= k) (x' >>= k') := by
  cases h with
  | failed fault => exact .failed fault
  | given related => exact hk _ _ related

/-- What agrees with the same result agrees. -/
theorem symm_trans {Q : β → γ → Prop} {S : α → γ → Prop} {x'' : Except ε γ} (h : Agree R x x')
    (h' : Agree S x x'') (hQ : ∀ {a b c}, R a b → S a c → Q b c) : Agree Q x' x'' := by
  cases h with
  | failed fault => cases h'; exact .failed fault
  | given related =>
      cases h' with
      | given related' => exact .given (hQ related related')

end Agree

/-! ## One patch -/

/-- A node of a document, and the node that stands for it in the copy. -/
structure Stands (f : Nat → Nat) (doc : Document) (node node' : Node) : Prop where
  inside : doc.tree.root.Encloses node
  rekeyed : node' = node.rekey f

theorem Stands.mem {node node' : Node} (h : Stands f doc node node') :
    node.key ∈ doc.tree.root.keys := Node.mem_keys.mpr ⟨node, h.inside, rfl⟩

section

variable (h : doc.tree.Rekeyed f doc'.tree) (hprefixes : doc'.prefixes = doc.prefixes)
include h

theorem target_agree (op role id : String) :
    Agree (Stands f doc) (target doc op role id) (target doc' op role id) := by
  unfold target
  rw [h.findId?]
  cases hfind : doc.tree.findId? id with
  | none => exact .failed _
  | some node => exact .given ⟨Node.mem_preorder.mp (List.mem_of_find?_eq_some hfind), rfl⟩

theorem inner_agree (op id : String) :
    Agree (Stands f doc) (inner doc op id) (inner doc' op id) := by
  have hinner : ∀ doc : Document, inner doc op id =
      (do
        let node ← target doc op "node" id
        if node.key = doc.tree.root.key then throw (.notFound op "node" id) else return node) := by
    intro doc
    unfold inner
    cases target doc op "node" id <;> rfl
  rw [hinner, hinner]
  refine (target_agree h op "node" id).bind fun node node' hnode => ?_
  obtain ⟨hinside, rfl⟩ := hnode
  have hroot : doc.tree.root.key ∈ doc.tree.root.keys :=
    Node.mem_keys.mpr ⟨_, .self _, rfl⟩
  rw [h.root, Node.key_rekey f doc.tree.root]
  simp only [(h.singled hroot hinside).key_eq_iff]
  split
  · exact .failed _
  · exact .given ⟨hinside, rfl⟩

theorem checkSeal_agree {node node' : Node} (hnode : Stands f doc node node') :
    checkSeal doc enforce node = checkSeal doc' enforce node' := by
  have hseal : doc.sealedSceneOf node = doc'.sealedSceneOf node' := by
    have hscene : isScene ∘ Node.rekey f = isScene :=
      funext fun n => congrArg (· == "scene") (n.tag_rekey f)
    unfold sealedSceneOf
    rw [hnode.rekeyed, Node.key_rekey, h.ancestors hnode.mem, List.find?_map, hscene]
    cases (doc.tree.ancestors node.key).find? isScene with
    | none => rfl
    | some scene =>
        simp only [Option.map_some, isSealed, sceneId, Node.attribute?_rekey]
        rfl
  rw [checkSeal, checkSeal, hseal]

/-- Both nodes have parents, or neither has one. -/
theorem parentOf?_cases {node node' : Node} (hnode : Stands f doc node node') :
    doc.tree.parentOf? node.key = none ∧ doc'.tree.parentOf? node'.key = none ∨
      ∃ parent, doc.tree.parentOf? node.key = some parent ∧
        doc'.tree.parentOf? node'.key = some (parent.rekey f) ∧
        parent.key ∈ doc.tree.root.keys := by
  rw [hnode.rekeyed, Node.key_rekey, h.parentOf? hnode.mem]
  cases hparent : doc.tree.parentOf? node.key with
  | none => exact .inl ⟨rfl, rfl⟩
  | some parent =>
      refine .inr ⟨parent, rfl, rfl, Node.mem_keys.mpr ⟨parent, ?_, rfl⟩⟩
      exact (Node.parentOf?_sound hparent).1

include hprefixes

theorem setAttribute_agree {node node' : Node} (hnode : Stands f doc node node') (name : String)
    (value : Option String) :
    (doc.setAttribute node name value).1.Same (doc'.setAttribute node' name value).1 := by
  obtain ⟨-, rfl⟩ := id hnode
  have hname : doc'.qualify name = doc.qualify name := by rw [qualify, qualify, hprefixes]
  unfold Document.setAttribute
  rw [hname, Node.key_rekey]
  refine .of_rekeyed (h.modify hnode.mem ?_ fun n _ _ => Node.setAttribute_rekey f n _ _) hprefixes
  exact keyed_setAttribute h.keyed node name value

theorem setText_agree {node node' : Node} (hnode : Stands f doc node node') (text : String) :
    (doc.setText node text).1.Same (doc'.setText node' text).1 := by
  obtain ⟨-, rfl⟩ := id hnode
  unfold Document.setText
  rw [Node.key_rekey]
  exact .of_rekeyed (h.modify hnode.mem (h.keyed.trim fun n => n.keys_setText text)
    fun n _ _ => Node.setText_rekey f n text) hprefixes

theorem insert_agree {node node' : Node} (hnode : Stands f doc node node') (child : Node)
    (index : Option Int) :
    (doc.insert node child index).1.Same (doc'.insert node' child index).1 := by
  obtain ⟨-, rfl⟩ := id hnode
  obtain ⟨f', hinsert⟩ := h.insert hnode.mem child index
  unfold Document.insert
  rw [Node.key_rekey]
  exact .of_rekeyed hinsert hprefixes

theorem remove_agree {node node' : Node} (hnode : Stands f doc node node') :
    Agree (fun r r' => r.1.Same r'.1) (doc.remove node) (doc'.remove node') := by
  unfold Document.remove
  rcases parentOf?_cases h hnode with ⟨hnone, hnone'⟩ | ⟨parent, hparent, hparent', hmem⟩
  · rw [hnone, hnone']
    exact .failed _
  · rw [hparent, hparent']
    refine .given ?_
    rw [hnode.rekeyed, Node.key_rekey, Node.key_rekey]
    exact .of_rekeyed (h.remove hmem hnode.mem) hprefixes

theorem replace_agree {node node' : Node} (hnode : Stands f doc node node') (replacement : Node) :
    Agree (fun r r' => r.1.Same r'.1) (doc.replace node replacement)
      (doc'.replace node' replacement) := by
  unfold Document.replace
  rcases parentOf?_cases h hnode with ⟨hnone, hnone'⟩ | ⟨parent, hparent, hparent', hmem⟩
  · rw [hnone, hnone']
    exact .failed _
  · rw [hparent, hparent']
    refine .given ?_
    obtain ⟨f', hreplace⟩ := h.replace hmem hnode.mem replacement
    rw [hnode.rekeyed, Node.key_rekey, Node.key_rekey]
    exact .of_rekeyed hreplace hprefixes

/-- A patch does the same to a document and to a copy of it. -/
theorem apply_agree (patch : Patch) : Agree (fun r r' => r.1.Same r'.1) (patch.apply enforce doc)
    (patch.apply enforce doc') := by
  cases patch with
  | appendNode parentId markup index =>
      refine (target_agree h _ _ parentId).bind fun parent parent' hparent => ?_
      rw [checkSeal_agree enforce h hparent, nodeOf, ← hprefixes, ← nodeOf]
      refine (Agree.same _).bind fun _ _ _ => (Agree.same _).bind fun node _ hnode => ?_
      rw [← hnode]
      exact .given (insert_agree h hprefixes hparent node index)
  | removeNode id =>
      refine (inner_agree h _ id).bind fun node node' hnode => ?_
      rw [checkSeal_agree enforce h hnode]
      refine (Agree.same _).bind fun _ _ _ => ?_
      have hremove := remove_agree h hprefixes hnode
      generalize doc.remove node = removed, doc'.remove node' = removed' at hremove ⊢
      cases hremove with
      | failed _ => exact .failed _
      | given hsame => exact .given hsame
  | setAttr id name value =>
      refine (target_agree h _ _ id).bind fun node node' hnode => ?_
      rw [checkSeal_agree enforce h hnode]
      refine (Agree.same _).bind fun _ _ _ => ?_
      exact .given (setAttribute_agree h hprefixes hnode name value)
  | setText id text =>
      refine (target_agree h _ _ id).bind fun node node' hnode => ?_
      rw [checkSeal_agree enforce h hnode]
      refine (Agree.same _).bind fun _ _ _ => ?_
      exact .given (setText_agree h hprefixes hnode text)
  | replaceSubtree id markup =>
      refine (inner_agree h _ id).bind fun node node' hnode => ?_
      rw [checkSeal_agree enforce h hnode, nodeOf, ← hprefixes, ← nodeOf]
      refine (Agree.same _).bind fun _ _ _ => (Agree.same _).bind fun replacement _ hsame => ?_
      rw [← hsame]
      have hreplace := replace_agree h hprefixes hnode replacement
      generalize doc.replace node replacement = replaced,
        doc'.replace node' replacement = replaced' at hreplace ⊢
      cases hreplace with
      | failed _ => exact .failed _
      | given hsame => exact .given hsame
  | sealScene id =>
      have hseal : ∀ doc : Document, apply enforce doc (.sealScene id) =
          (do
            let scene ← target doc "sealScene" "scene" id
            if isScene scene then return doc.setAttribute scene "sealed" (some "true")
            else throw (.notFound "sealScene" "scene" id)) := by
        intro doc
        rw [apply, target]
        cases doc.tree.findId? id <;> rfl
      rw [hseal, hseal]
      refine (target_agree h _ _ id).bind fun scene scene' hscene => ?_
      have hkind : isScene scene' = isScene scene := by
        rw [hscene.rekeyed, isScene, Node.tag_rekey, ← isScene]
      rw [hkind]
      split
      · exact .given (setAttribute_agree h hprefixes hscene _ _)
      · exact .failed _

end

/-! ## Batches -/

/-- A patch makes the same, but for the keys, of documents that are the same but for the keys. -/
theorem applyEntry_same (hdoc : doc.tree.Keyed) (hdoc' : doc'.tree.Keyed) (h : doc.Same doc')
    (entry : Option Patch) : Agree (fun r r' => r.1.Same r'.1) (applyEntry enforce doc entry)
      (applyEntry enforce doc' entry) := by
  cases entry with
  | none => exact .failed _
  | some patch =>
      -- both are copies of the document that is numbered anew
      obtain ⟨f, hf⟩ := Tree.exists_rekeyed hdoc
      obtain ⟨f', hf'⟩ := Tree.exists_rekeyed hdoc'
      rw [← h.1] at hf'
      let anew : Document := { doc with tree := .ofNode doc.tree.root }
      have hanew : Tree.Rekeyed f anew.tree doc.tree := hf
      have hanew' : Tree.Rekeyed f' anew.tree doc'.tree := hf'
      exact (apply_agree enforce hanew rfl patch).symm_trans
        (apply_agree enforce hanew' h.2.symm patch) fun hsame hsame' => hsame.symm.trans hsame'

/-- So does a batch. -/
theorem applyAll_same (hdoc : doc.tree.Keyed) (hdoc' : doc'.tree.Keyed) (h : doc.Same doc')
    (batch : List (Option Patch)) :
    Agree Document.Same (applyAll enforce doc batch) (applyAll enforce doc' batch) := by
  induction batch generalizing doc doc' with
  | nil => exact .given h
  | cons entry rest ih =>
      have hentry := applyEntry_same enforce hdoc hdoc' h entry
      rw [applyAll, applyAll]
      generalize hx : applyEntry enforce doc entry = x, hx' : applyEntry enforce doc' entry = x'
        at hentry
      cases hentry with
      | failed fault => exact .failed fault
      | given hsame => exact ih (keyed_of_applyEntry hdoc hx) (keyed_of_applyEntry hdoc' hx') hsame

end Cuesheet.Patch
