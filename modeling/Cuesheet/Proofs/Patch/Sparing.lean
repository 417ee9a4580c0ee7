import Cuesheet.Proofs.Data.Entries
import Cuesheet.Proofs.Patch.Sealing

/-!
# What seals keep

To seal a scene changes nothing but an attribute of the scene (`SameButSealed`). Any other patch
changes one node, and leaves a tree elsewhere alone as long as that node keeps the child in which
the tree stands (`encloses_modify`).

With seals enforced, a sealed scene therefore stays as it is through every patch that spares it
(`stays_of_apply`): one that does not take away a node around the scene, and that is not aimed into
the scene through a scene in it that is open. Patches that the seal of their target refuses spare
whatever there is. What one patch keeps, a batch keeps (`stays_of_applyAll`).
-/

namespace Cuesheet

open Xml (Node Tree)

/-! ## The same tree with more seals -/

namespace Xml.Node

open Document (isScene Sealed)

/-- The same tree, but for scenes that were sealed. -/
inductive SameButSealed : Node → Node → Prop
  | intro {node node' : Node} (key : node'.key = node.key) (name : node'.name = node.name)
      (attributes : node'.attributes = node.attributes ∨
        isScene node = true ∧ node'.attributes = node.attributes.put "sealed" "true")
      (text : node'.text = node.text)
      (children : List.Forall₂ SameButSealed node.children node'.children)
      (tail : node'.tail = node.tail) : SameButSealed node node'

variable {root node node' scene scene' place target : Node} {key : Nat} {f : Node → Node}

namespace SameButSealed

theorem refl (node : Node) : SameButSealed node node := by
  induction node using children_induction with
  | step node ih => exact .intro rfl rfl (.inl rfl) rfl (List.forall₂_same.mpr ih) rfl

theorem key_eq (h : SameButSealed node node') : node'.key = node.key := by
  cases h with
  | intro key => exact key

theorem isScene_eq (h : SameButSealed node node') : isScene node' = isScene node := by
  cases h with
  | intro _ name => rw [isScene, isScene, tag, tag, name]

theorem put_put (attributes : Entries String String) :
    (attributes.put "sealed" "true").put "sealed" "true" = attributes.put "sealed" "true" :=
  Entries.put_of_value? (by rw [Entries.value?_put]; rfl)

theorem trans {a b c : Node} (hab : SameButSealed a b) (hbc : SameButSealed b c) :
    SameButSealed a c := by
  induction a using children_induction generalizing b c with
  | step a ih =>
      have hscene := hab.isScene_eq
      cases hab with
      | intro key name attributes text children tail =>
      cases hbc with
      | intro key' name' attributes' text' children' tail' =>
      refine .intro (key'.trans key) (name'.trans name) ?_ (text'.trans text) ?_ (tail'.trans tail)
      · rw [hscene] at attributes'
        rcases attributes with hsame | ⟨hkind, hput⟩
        · rw [← hsame]
          exact attributes'
        · refine .inr ⟨hkind, ?_⟩
          rcases attributes' with hsame' | ⟨-, hput'⟩
          · rw [hsame', hput]
          · rw [hput', hput, put_put]
      · exact forall₂_trans ih children children'
where
  forall₂_trans {as bs cs : List Node}
      (ih : ∀ a ∈ as, ∀ {b c : Node}, SameButSealed a b → SameButSealed b c → SameButSealed a c)
      (hab : List.Forall₂ SameButSealed as bs) (hbc : List.Forall₂ SameButSealed bs cs) :
      List.Forall₂ SameButSealed as cs := by
    induction hab generalizing cs with
    | nil =>
        cases hbc
        exact .nil
    | cons hfirst _ ihrest =>
        cases hbc with
        | cons hfirst' hrest' =>
            refine .cons (ih _ List.mem_cons_self hfirst hfirst') (ihrest ?_ hrest')
            exact fun a ha => ih a (List.mem_cons_of_mem _ ha)

theorem sealed (h : SameButSealed scene scene') (hsealed : Sealed scene) : Sealed scene' := by
  cases h with
  | intro _ _ attributes =>
      rcases attributes with hsame | ⟨-, hput⟩
      · unfold Sealed attribute?
        rw [hsame]
        exact hsealed
      · refine .inl ?_
        rw [attribute?, hput, Entries.value?_put]
        rfl

/-- What stands in a tree stands in it with more seals, too. -/
theorem encloses (h : SameButSealed root node') (hnode : root.Encloses scene) :
    ∃ scene', node'.Encloses scene' ∧ SameButSealed scene scene' := by
  induction hnode generalizing node' with
  | self n => exact ⟨node', .self node', h⟩
  | child mem _ ih =>
      cases h with
      | intro _ _ _ _ children =>
          obtain ⟨c', hc', hsame⟩ := exists_of_mem children mem
          obtain ⟨scene', hinside, hscene⟩ := ih hsame
          exact ⟨scene', .child hc' hinside, hscene⟩
where
  exists_of_mem {as bs : List Node} (h : List.Forall₂ SameButSealed as bs) {a : Node}
      (ha : a ∈ as) : ∃ b ∈ bs, SameButSealed a b := by
    induction h with
    | nil => cases ha
    | cons hfirst _ ih =>
        rcases List.mem_cons.mp ha with rfl | ha
        · exact ⟨_, List.mem_cons_self, hfirst⟩
        · obtain ⟨b, hb, hsame⟩ := ih ha
          exact ⟨b, List.mem_cons_of_mem _ hb, hsame⟩

/-- To seal a scene changes nothing else. -/
theorem modify (key : Nat) (h : ∀ n, root.Encloses n → n.key = key → isScene n = true) :
    SameButSealed root (root.modify key fun n => n.setAttribute "sealed" (some "true")) := by
  induction root using children_induction with
  | step root ih =>
      rw [modify_eq]
      split
      · rename_i hkey
        have hscene := h root (.self root) hkey
        exact .intro rfl rfl (.inr ⟨hscene, rfl⟩) rfl
          (List.forall₂_same.mpr fun c _ => refl c) rfl
      · refine .intro rfl rfl (.inl rfl) rfl ?_ rfl
        refine List.forall₂_map_right_iff.mpr (List.forall₂_same.mpr fun c hc => ?_)
        exact ih c hc fun n hn hkey => h n (.child hc hn) hkey

end SameButSealed

/-! ## Away from an edit -/

/-- A node that is not above the edited one stays where it is, changed inside. -/
theorem encloses_modify_inner (hscene : root.Encloses scene)
    (habove : ∀ a, root.Encloses a → a.Encloses scene → a.key = key → a = scene) :
    (root.modify key f).Encloses (scene.modify key f) := by
  induction hscene with
  | self n => exact .self _
  | @child root c scene mem inner ih =>
      by_cases hkey : root.key = key
      · obtain rfl := habove root (.self root) (.child mem inner) hkey
        exact .self _
      · rw [modify_eq key f root, if_neg hkey]
        refine .child (List.mem_map_of_mem mem) (ih fun a ha => ?_)
        exact habove a (.child mem ha)

/-- The edited node is where the node was. -/
theorem encloses_modify_self (h : root.keys.Nodup) (hplace : root.Encloses place) :
    (root.modify place.key f).Encloses (f place) := by
  have hinner := encloses_modify_inner (f := f) hplace fun a ha _ hkey =>
    eq_of_key_eq h ha hplace hkey
  rwa [modify_eq place.key f place, if_pos rfl] at hinner

/-- A tree stays as it is that stands neither around the edited node nor in a child that it
loses. -/
theorem encloses_modify (h : root.keys.Nodup) (hplace : root.Encloses place)
    (hscene : root.Encloses scene) (hapart : ¬ scene.Encloses place)
    (hkeeps : ∀ c ∈ place.children, c.Encloses scene → c ∈ (f place).children) :
    (root.modify place.key f).Encloses scene := by
  by_cases habove : place.Encloses scene
  · cases habove with
    | self => exact absurd (.self _) hapart
    | child mem inner =>
        exact (encloses_modify_self h hplace).trans (.child (hkeeps _ mem inner) inner)
  · have hsame : scene.modify place.key f = scene := by
      refine modify_of_notMem fun hkey => ?_
      obtain ⟨n, hn, hkey⟩ := mem_keys.mp hkey
      rw [eq_of_key_eq h (hscene.trans hn) hplace hkey] at hn
      exact hapart hn
    rw [← hsame]
    refine encloses_modify_inner hscene fun a ha hinside hkey => ?_
    rw [eq_of_key_eq h ha hplace hkey] at hinside
    exact absurd hinside habove

/-- An edit that keeps the key of the node keeps the node in the tree. -/
theorem mem_keys_modify (hf : ∀ n, (f n).key = n.key) (h : key ∈ root.keys) :
    key ∈ (root.modify key f).keys := by
  induction root using children_induction with
  | step root ih =>
      rw [modify_eq]
      split
      · rename_i hkey
        rw [keys_eq, hf, hkey]
        exact List.mem_cons_self
      · rename_i hkey
        rw [keys_eq] at h ⊢
        have hchildren := (List.mem_cons.mp h).resolve_left (Ne.symm hkey)
        obtain ⟨c, hc, hmem⟩ := List.mem_flatMap.mp hchildren
        exact List.mem_cons_of_mem _ (List.mem_flatMap.mpr
          ⟨_, List.mem_map_of_mem hc, ih c hc hmem⟩)

/-! ## Parents -/

/-- The parent found for a key has a child with it. -/
theorem parentOf?_sound (h : root.parentOf? key = some node) :
    root.Encloses node ∧ ∃ child ∈ node.children, child.key = key := by
  induction root using children_induction with
  | step root ih =>
      rw [parentOf?_eq] at h
      split at h
      · rename_i hany
        obtain rfl := Option.some.inj h
        obtain ⟨child, hchild, hkey⟩ := List.any_eq_true.mp hany
        exact ⟨.self root, child, hchild, eq_of_beq hkey⟩
      · obtain ⟨c, hc, hparent⟩ := List.exists_of_findSome?_eq_some h
        obtain ⟨hinside, hchild⟩ := ih c hc hparent
        exact ⟨.child hc hinside, hchild⟩

theorem mem_parentOf? (h : root.keys.Nodup) (htarget : root.Encloses target)
    (hparent : root.parentOf? target.key = some node) :
    root.Encloses node ∧ target ∈ node.children := by
  obtain ⟨hinside, child, hchild, hkey⟩ := parentOf?_sound hparent
  have hsame := eq_of_key_eq h (hinside.trans (.child hchild (.self child))) htarget hkey
  rw [hsame] at hchild
  exact ⟨hinside, hchild⟩

end Xml.Node

/-! ## Patches that spare a scene -/

namespace Patch

open Document

variable {doc doc' : Document} {patch : Patch} {m : Mutation} {node scene target : Node}

/-- What is inside the target goes. -/
def clears : Patch → Bool
  | .removeNode _ => true
  | .setText _ _ => true
  | .replaceSubtree _ _ => true
  | .appendNode _ _ _ => false
  | .setAttr _ _ _ => false
  | .sealScene _ => false

/-- A sealed scene in a document. -/
structure SealedScene (doc : Document) (scene : Node) : Prop where
  inside : doc.tree.root.Encloses scene
  kind : isScene scene = true
  sealed : Sealed scene

/-- A seal protects a node: that of the nearest scene. -/
def Guarded (doc : Document) (node : Node) : Prop :=
  ∃ nearest, NearestScene doc.tree.root node nearest ∧ Sealed nearest

/-- A patch does not take a scene away with a node around it, unless that node is guarded, and is
not aimed into the scene through an open scene that stands in it. -/
structure Spares (doc : Document) (patch : Patch) (scene : Node) : Prop where
  around : ∀ target, target? doc patch = some target → patch.clears = true →
    target.Encloses scene → target ≠ scene → Guarded doc target
  through : ∀ target, target? doc patch = some target → scene.Encloses target →
    ∀ inner, NearestScene doc.tree.root target inner → inner ≠ scene → Sealed inner

/-- Where a patch that spares a sealed scene could reach it, its target is guarded. -/
theorem Spares.guarded (h : Spares doc patch scene) (hdoc : doc.tree.Keyed)
    (hscene : SealedScene doc scene) (htarget : target? doc patch = some target)
    (hreach : scene.Encloses target ∨ patch.clears = true ∧ target.Encloses scene) :
    Guarded doc target := by
  by_cases hinside : scene.Encloses target
  · have haround : SceneAround doc.tree.root target scene := ⟨hscene.inside, hinside, hscene.kind⟩
    obtain ⟨nearest, hnearest⟩ := haround.exists_nearest hdoc (target?_inside htarget)
    refine ⟨nearest, hnearest, ?_⟩
    by_cases hsame : nearest = scene
    · rw [hsame]
      exact hscene.sealed
    · exact h.through target htarget hinside nearest hnearest hsame
  · obtain ⟨hclears, hover⟩ := hreach.resolve_left hinside
    refine h.around target htarget hclears hover fun hsame => hinside ?_
    rw [hsame]
    exact .self scene

theorem not_guarded_of_apply (hdoc : doc.tree.Keyed) (htarget : target? doc patch = some target)
    (h : patch.apply true doc = .ok (doc', m)) : ¬ Guarded doc target := by
  rintro ⟨nearest, hnearest, hsealed⟩
  have hrefused := (refused_iff_nearest hdoc htarget).mpr ⟨nearest, hnearest, hsealed, rfl⟩
  rw [hrefused] at h
  cases h

/-! ## What a patch edits -/

/-- A patch has changed a node, its target or the parent of its target. Of the children of that
node it has taken at most what it clears. -/
structure Edits (doc doc' : Document) (patch : Patch) (target place : Node) (f : Node → Node) :
    Prop where
  found : target? doc patch = some target
  inside : doc.tree.root.Encloses place
  changed : doc'.tree.root = doc.tree.root.modify place.key f
  near : target = place ∨ target ∈ place.children
  keeps : ∀ c ∈ place.children, c ∈ (f place).children ∨ patch.clears = true ∧ target.Encloses c

theorem target_ok {op role id : String} (h : Patch.target doc op role id = .ok target) :
    doc.tree.findId? id = some target := by
  unfold Patch.target at h
  split at h
  · cases h
    assumption
  · cases h

theorem inner_ok {op id : String} (h : inner doc op id = .ok target) :
    (doc.tree.findId? id).filter (fun node => node.key != doc.tree.root.key) = some target := by
  unfold inner at h
  split at h
  · cases h
  · rename_i node hnode
    split at h
    · cases h
    · rename_i hkey
      cases h
      exact Option.filter_eq_some_iff.mpr ⟨target_ok hnode, bne_iff_ne.mpr hkey⟩

/-- The target itself is edited. -/
theorem edits_here {f : Node → Node} (htarget : target? doc patch = some target)
    (hroot : doc'.tree.root = doc.tree.root.modify target.key f)
    (hkeeps : ∀ c ∈ target.children, c ∈ (f target).children ∨ patch.clears = true) :
    ∃ target place f, Edits doc doc' patch target place f := by
  refine ⟨target, target, f, htarget, target?_inside htarget, hroot, .inl rfl, fun c hc => ?_⟩
  exact (hkeeps c hc).imp_right fun hclears => ⟨hclears, .child hc (.self c)⟩

/-- The parent is edited, which loses nothing but the target. -/
theorem edits_above {f : Node → Node} {parent : Node} (hdoc : doc.tree.Keyed)
    (htarget : target? doc patch = some target) (hclears : patch.clears = true)
    (hparent : doc.tree.parentOf? target.key = some parent)
    (hroot : doc'.tree.root = doc.tree.root.modify parent.key f)
    (hkeeps : ∀ c ∈ parent.children, c.key ≠ target.key → c ∈ (f parent).children) :
    ∃ target place f, Edits doc doc' patch target place f := by
  obtain ⟨hinside, hchild⟩ := Node.mem_parentOf? hdoc.nodup (target?_inside htarget) hparent
  refine ⟨target, parent, f, htarget, hinside, hroot, .inr hchild, fun c hc => ?_⟩
  by_cases hkey : c.key = target.key
  · have hsame := Node.eq_of_key_eq hdoc.nodup (hinside.trans (.child hc (.self c)))
      (target?_inside htarget) hkey
    rw [hsame]
    exact .inr ⟨hclears, .self target⟩
  · exact .inl (hkeeps c hc hkey)

/-- Apart from seals, a patch that is applied has a target and edits there. -/
theorem edits_of_apply {enforce : Bool} (hdoc : doc.tree.Keyed)
    (h : patch.apply enforce doc = .ok (doc', m)) :
    (∃ id, patch = .sealScene id) ∨ ∃ target place f, Edits doc doc' patch target place f := by
  cases patch with
  | appendNode parentId markup index =>
      obtain ⟨parent, hparent, h⟩ := ok_of_bind h
      obtain ⟨-, -, h⟩ := ok_of_bind h
      obtain ⟨node, -, h⟩ := ok_of_bind h
      cases h
      refine .inr (edits_here (target_ok hparent) rfl fun c hc => .inl ?_)
      rw [← List.take_append_drop _ parent.children] at hc
      rcases List.mem_append.mp hc with hc | hc
      · exact List.mem_append_left _ hc
      · exact List.mem_append_right _ (List.mem_cons_of_mem _ hc)
  | removeNode id =>
      obtain ⟨node, hnode, h⟩ := ok_of_bind h
      obtain ⟨-, -, h⟩ := ok_of_bind h
      unfold Document.remove at h
      cases hparent : doc.tree.parentOf? node.key with
      | none => rw [hparent] at h; cases h
      | some parent =>
          rw [hparent] at h
          cases h
          refine .inr (edits_above hdoc (inner_ok hnode) rfl hparent rfl fun c hc hkey => ?_)
          exact List.mem_filter.mpr ⟨hc, bne_iff_ne.mpr hkey⟩
  | setAttr id name value =>
      obtain ⟨node, hnode, h⟩ := ok_of_bind h
      obtain ⟨-, -, h⟩ := ok_of_bind h
      cases h
      exact .inr (edits_here (target_ok hnode) rfl fun c hc => .inl hc)
  | setText id text =>
      obtain ⟨node, hnode, h⟩ := ok_of_bind h
      obtain ⟨-, -, h⟩ := ok_of_bind h
      cases h
      exact .inr (edits_here (target_ok hnode) rfl fun c _ => .inr rfl)
  | replaceSubtree id markup =>
      obtain ⟨node, hnode, h⟩ := ok_of_bind h
      obtain ⟨-, -, h⟩ := ok_of_bind h
      obtain ⟨replacement, -, h⟩ := ok_of_bind h
      unfold Document.replace at h
      cases hparent : doc.tree.parentOf? node.key with
      | none => rw [hparent] at h; cases h
      | some parent =>
          rw [hparent] at h
          cases h
          refine .inr (edits_above hdoc (inner_ok hnode) rfl hparent rfl fun c hc hkey => ?_)
          exact List.mem_map.mpr ⟨c, hc, if_neg hkey⟩
  | sealScene id => exact .inl ⟨id, rfl⟩

/-! ### One edit -/

/-- What is told about a node that is in the document is the node as it is there. -/
theorem current_mutation (h : node.key ∈ doc.tree.root.keys) (kind : MutationKind)
    (name : Option String) : doc.tree.find? (doc.mutation kind node name).target.key =
      some (doc.mutation kind node name).target := by
  obtain ⟨n, hfound, hkey⟩ := Tree.find?_of_mem h
  have htarget : (doc.mutation kind node name).target = n := by
    rw [Document.mutation, hfound]
    rfl
  rw [htarget, hkey, hfound]

/-- One edit of one node of a document, which keeps its key, and what is told about it. -/
structure Edited (doc doc' : Document) (m : Mutation) (node : Node) (f : Node → Node) : Prop where
  inside : doc.tree.root.Encloses node
  changed : doc'.tree.root = doc.tree.root.modify node.key f
  key : ∀ n, (f n).key = n.key
  prefixes : doc'.prefixes = doc.prefixes
  told : ∃ kind name, m = doc'.mutation kind node name

theorem edited_setAttribute (hnode : doc.tree.root.Encloses node) (name : String)
    (value : Option String) : ∃ node' f, Edited doc (doc.setAttribute node name value).1
      (doc.setAttribute node name value).2 node' f :=
  ⟨node, _, hnode, rfl, fun _ => rfl, rfl, _, _, rfl⟩

theorem edited_remove (h : doc.remove node = .ok (doc', m)) :
    ∃ node' f, Edited doc doc' m node' f := by
  unfold Document.remove at h
  cases hparent : doc.tree.parentOf? node.key with
  | none => rw [hparent] at h; cases h
  | some parent =>
      rw [hparent] at h
      cases h
      exact ⟨parent, _, (Node.parentOf?_sound hparent).1, rfl, fun _ => rfl, rfl, _, _, rfl⟩

theorem edited_replace {replacement : Node} (h : doc.replace node replacement = .ok (doc', m)) :
    ∃ node' f, Edited doc doc' m node' f := by
  unfold Document.replace at h
  cases hparent : doc.tree.parentOf? node.key with
  | none => rw [hparent] at h; cases h
  | some parent =>
      rw [hparent] at h
      cases h
      exact ⟨parent, _, (Node.parentOf?_sound hparent).1, rfl, fun _ => rfl, rfl, _, _, rfl⟩

/-- A patch that is applied makes just one edit. -/
theorem edited_of_apply {enforce : Bool} (h : patch.apply enforce doc = .ok (doc', m)) :
    ∃ node f, Edited doc doc' m node f := by
  have hinside : ∀ {id : String} {node : Node}, doc.tree.findId? id = some node →
      doc.tree.root.Encloses node :=
    fun hfind => Node.mem_preorder.mp (List.mem_of_find?_eq_some hfind)
  cases patch with
  | appendNode parentId markup index =>
      obtain ⟨parent, hparent, h⟩ := ok_of_bind h
      obtain ⟨-, -, h⟩ := ok_of_bind h
      obtain ⟨node, -, h⟩ := ok_of_bind h
      cases h
      exact ⟨parent, _, hinside (target_ok hparent), rfl, fun _ => rfl, rfl, _, _, rfl⟩
  | removeNode id =>
      obtain ⟨node, -, h⟩ := ok_of_bind h
      obtain ⟨-, -, h⟩ := ok_of_bind h
      cases hremove : doc.remove node with
      | error fault => rw [hremove] at h; cases h
      | ok result => rw [hremove] at h; cases h; exact edited_remove hremove
  | setAttr id name value =>
      obtain ⟨node, hnode, h⟩ := ok_of_bind h
      obtain ⟨-, -, h⟩ := ok_of_bind h
      cases h
      exact edited_setAttribute (hinside (target_ok hnode)) name value
  | setText id text =>
      obtain ⟨node, hnode, h⟩ := ok_of_bind h
      obtain ⟨-, -, h⟩ := ok_of_bind h
      cases h
      exact ⟨node, _, hinside (target_ok hnode), rfl, fun _ => rfl, rfl, _, _, rfl⟩
  | replaceSubtree id markup =>
      obtain ⟨node, -, h⟩ := ok_of_bind h
      obtain ⟨-, -, h⟩ := ok_of_bind h
      obtain ⟨replacement, -, h⟩ := ok_of_bind h
      cases hreplace : doc.replace node replacement with
      | error fault => rw [hreplace] at h; cases h
      | ok result => rw [hreplace] at h; cases h; exact edited_replace hreplace
  | sealScene id =>
      simp only [apply] at h
      split at h
      · cases h
      · rename_i node hfind
        split at h
        · cases h
          exact edited_setAttribute (hinside hfind) "sealed" (some "true")
        · cases h

/-- No patch declares a prefix. -/
theorem prefixes_of_apply {enforce : Bool} (h : patch.apply enforce doc = .ok (doc', m)) :
    doc'.prefixes = doc.prefixes := by
  obtain ⟨node, f, hedited⟩ := edited_of_apply h
  exact hedited.prefixes

/-- The edited node stays in the document. -/
theorem Edited.mem_keys {node : Node} {f : Node → Node} (h : Edited doc doc' m node f) :
    node.key ∈ doc'.tree.root.keys := by
  rw [h.changed]
  exact Node.mem_keys_modify h.key (Node.mem_keys.mpr ⟨node, h.inside, rfl⟩)

/-- What is told about an edit is the node as it is afterwards. -/
theorem Edited.current {node : Node} {f : Node → Node} (h : Edited doc doc' m node f) :
    doc'.tree.find? m.target.key = some m.target := by
  obtain ⟨kind, name, rfl⟩ := h.told
  exact current_mutation h.mem_keys kind name

theorem Edited.told_key {node : Node} {f : Node → Node} (h : Edited doc doc' m node f) :
    m.target.key = node.key := by
  obtain ⟨kind, name, rfl⟩ := h.told
  obtain ⟨n, hfound, hkey⟩ := Tree.find?_of_mem h.mem_keys
  rw [Document.mutation, hfound]
  exact hkey

/-- A tree stays as it is around which nothing is cleared and inside which nothing is edited. -/
theorem Edits.encloses {place : Node} {f : Node → Node} (hdoc : doc.tree.Keyed)
    (h : Edits doc doc' patch target place f) (hscene : doc.tree.root.Encloses scene)
    (hapart : ¬ scene.Encloses target)
    (hkept : patch.clears = true → ¬ target.Encloses scene) : doc'.tree.root.Encloses scene := by
  rw [h.changed]
  refine Node.encloses_modify hdoc.nodup h.inside hscene (fun hplace => hapart ?_) ?_
  · rcases h.near with rfl | hchild
    · exact hplace
    · exact hplace.trans (.child hchild (.self target))
  · intro c hc hinside
    rcases h.keeps c hc with hstays | ⟨hclears, hgone⟩
    · exact hstays
    · exact absurd (hgone.trans hinside) (hkept hclears)

theorem sameButSealed_of_sealScene {enforce : Bool} {id : String} (hdoc : doc.tree.Keyed)
    (h : apply enforce doc (.sealScene id) = .ok (doc', m)) :
    doc.tree.root.SameButSealed doc'.tree.root := by
  simp only [apply] at h
  split at h
  · cases h
  · rename_i node hfind
    split at h
    · rename_i hkind
      cases h
      have hinside := Node.mem_preorder.mp (List.mem_of_find?_eq_some hfind)
      refine Node.SameButSealed.modify node.key fun n hn hkey => ?_
      rw [Node.eq_of_key_eq hdoc.nodup hn hinside hkey]
      exact hkind
    · cases h

/-! ## Scenes that stay -/

/-- A sealed scene is in a document, perhaps with more seals on it and in it. -/
def Stays (doc : Document) (scene : Node) : Prop :=
  ∃ scene', SealedScene doc scene' ∧ scene.SameButSealed scene'

theorem SealedScene.stays (h : SealedScene doc scene) : Stays doc scene :=
  ⟨scene, h, .refl scene⟩

/-- A sealed scene stays through a patch that spares it. -/
theorem stays_of_apply (hdoc : doc.tree.Keyed) (hscene : SealedScene doc scene)
    (hspares : Spares doc patch scene) (h : patch.apply true doc = .ok (doc', m)) :
    Stays doc' scene := by
  rcases edits_of_apply hdoc h with ⟨id, rfl⟩ | ⟨target, place, f, hedits⟩
  · obtain ⟨scene', hinside, hsame⟩ :=
      (sameButSealed_of_sealScene hdoc h).encloses hscene.inside
    exact ⟨scene', ⟨hinside, hsame.isScene_eq.trans hscene.kind, hsame.sealed hscene.sealed⟩, hsame⟩
  · have hunreached : ¬ (scene.Encloses target ∨ patch.clears = true ∧ target.Encloses scene) :=
      fun hreach => not_guarded_of_apply hdoc hedits.found h
        (hspares.guarded hdoc hscene hedits.found hreach)
    obtain ⟨hapart, hkept⟩ := not_or.mp hunreached
    have hencloses := hedits.encloses hdoc hscene.inside hapart
      fun hclears hover => hkept ⟨hclears, hover⟩
    exact SealedScene.stays ⟨hencloses, hscene.kind, hscene.sealed⟩

/-- Every patch of a batch spares, when its turn comes, the node that has a key then. -/
def AllSpare (doc : Document) (batch : List (Option Patch)) (key : Nat) : Prop :=
  ∀ front patch rest turn scene, batch = front ++ some patch :: rest →
    applyAll true doc front = .ok turn → turn.tree.root.Encloses scene → scene.key = key →
    Spares turn patch scene

theorem AllSpare.tail {entry : Option Patch} {batch : List (Option Patch)} {key : Nat}
    (h : AllSpare doc (entry :: batch) key) (happly : applyEntry true doc entry = .ok (doc', m)) :
    AllSpare doc' batch key := by
  intro front patch rest turn scene hbatch hfront
  refine h (entry :: front) patch rest turn scene (congrArg _ hbatch) ?_
  rw [applyAll, happly]
  exact hfront

theorem AllSpare.front {front rest : List (Option Patch)} {key : Nat}
    (h : AllSpare doc (front ++ rest) key) : AllSpare doc front key := by
  intro before patch after turn scene hbatch
  refine h before patch (after ++ rest) turn scene ?_
  rw [hbatch, List.append_assoc, List.cons_append]

/-- What every patch of a batch spares, the batch leaves where it is. -/
theorem stays_of_applyAll {batch : List (Option Patch)} (hdoc : doc.tree.Keyed)
    (hscene : SealedScene doc scene) (hspare : AllSpare doc batch scene.key)
    (h : applyAll true doc batch = .ok doc') : Stays doc' scene := by
  induction batch generalizing doc scene with
  | nil =>
      cases h
      exact hscene.stays
  | cons entry rest ih =>
      rw [applyAll] at h
      cases happly : applyEntry true doc entry with
      | error fault => rw [happly] at h; cases h
      | ok edited =>
          rw [happly] at h
          cases entry with
          | none => cases happly
          | some patch =>
              have hfirst := hspare [] patch rest doc scene rfl rfl hscene.inside rfl
              obtain ⟨scene₁, hscene₁, hsame⟩ := stays_of_apply hdoc hscene hfirst happly
              have hrest := hspare.tail happly
              rw [← hsame.key_eq] at hrest
              obtain ⟨scene₂, hscene₂, hsame'⟩ := ih (keyed_of_apply hdoc happly) hscene₁ hrest h
              exact ⟨scene₂, hscene₂, hsame.trans hsame'⟩

end Patch

end Cuesheet
