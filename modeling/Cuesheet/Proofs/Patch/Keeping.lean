import Cuesheet.Proofs.Document.Keys
import Cuesheet.Proofs.Patch.Aiming
import Cuesheet.Proofs.Xml.Prefixes

/-!
# What patches keep everywhere

A property that holds everywhere in a document holds everywhere after a patch if it does not look
at keys or children (`Local`), holds of whatever can be read, and is kept by the attribute or the
text that the patch sets (`Patch.Keeps`). So it is with a batch (`Patch.inside_of_applyAll`).
-/

namespace Cuesheet

open Xml (Node)

namespace Xml.Node

variable {p : Node → Prop} {node replacement : Node}

/-- A property looks at neither keys nor children, and at the text behind a node apart from the
node. -/
structure Local (p : Node → Prop) : Prop where
  shallow : Shallow p
  tail : ∀ {node other : Node}, p node → p other → p { node with tail := other.tail }

theorem inside_setText {text : String} (htext : ∀ n : Node, p n → p (n.setText text))
    (h : node.Inside p) : (node.setText text).Inside p :=
  inside_iff.mpr ⟨htext node (inside_iff.mp h).1, nofun⟩

theorem inside_setAttribute {name : String} {value : Option String}
    (hattribute : ∀ n : Node, p n → p (n.setAttribute name value)) (h : node.Inside p) :
    (node.setAttribute name value).Inside p := by
  obtain ⟨hnode, hchildren⟩ := inside_iff.mp h
  exact inside_iff.mpr ⟨hattribute node hnode, hchildren⟩

theorem inside_replaceChild (hp : Local p) (h : node.Inside p)
    (hreplacement : replacement.Inside p) (key : Nat) :
    (node.replaceChild key replacement).Inside p := by
  obtain ⟨hnode, hchildren⟩ := inside_iff.mp h
  obtain ⟨hown, hinner⟩ := inside_iff.mp hreplacement
  refine inside_iff.mpr ⟨hp.shallow node node.key _ hnode, fun c hc => ?_⟩
  obtain ⟨child, hchild, rfl⟩ := List.mem_map.mp hc
  split
  · exact inside_iff.mpr ⟨hp.tail hown (inside_iff.mp (hchildren child hchild)).1, hinner⟩
  · exact hchildren child hchild

end Xml.Node

namespace Document

variable {doc doc' : Document} {m : Mutation} {p : Node → Prop} {e : Edit}

/-! ## Edits -/

/-- What an edit sets or brings in keeps a property. -/
def Edit.Keeps (p : Node → Prop) (doc : Document) : Edit → Prop
  | setAttribute _ name value => ∀ n, p n → p (n.setAttribute (doc.qualify name) value)
  | setText _ text => ∀ n, p n → p (n.setText text)
  | insert _ child _ => child.Inside p
  | remove _ => True
  | replace _ replacement => replacement.Inside p

/-- An edit changes one node, which keeps its tail and any property that the edit keeps. -/
theorem modified_of_edit (h : e.apply doc = .ok (doc', m)) :
    ∃ key f, doc'.tree.root = doc.tree.root.modify key f ∧ doc'.prefixes = doc.prefixes ∧
      (∀ n, (f n).tail = n.tail) ∧
      ∀ p, Node.Local p → e.Keeps p doc → ∀ n, n.Inside p → (f n).Inside p := by
  cases e with
  | setAttribute node name value =>
      cases h
      refine ⟨node.key, fun n => n.setAttribute (doc.qualify name) value, rfl, rfl, fun _ => rfl, ?_⟩
      exact fun p _ hkeeps n hn => Node.inside_setAttribute hkeeps hn
  | setText node text =>
      cases h
      refine ⟨node.key, fun n => n.setText text, rfl, rfl, fun _ => rfl, ?_⟩
      exact fun p _ hkeeps n hn => Node.inside_setText hkeeps hn
  | insert parent child index =>
      cases h
      refine ⟨parent.key, fun n => n.insertChild (doc.tree.adopt child).1 index, rfl, rfl,
        fun _ => rfl, fun p hp hkeeps n hn => ?_⟩
      exact Node.inside_insertChild hp.shallow hn (Node.inside_number hp.shallow hkeeps _) index
  | remove node =>
      have hremove : doc.remove node = .ok (doc', m) := h
      unfold Document.remove at hremove
      split at hremove
      · cases hremove
      · rename_i parent hparent
        cases hremove
        refine ⟨parent.key, fun n => n.removeChild node.key, rfl, rfl, fun _ => rfl, ?_⟩
        exact fun p hp _ n hn => Node.inside_removeChild hp.shallow hn node.key
  | replace node replacement =>
      have hreplace : doc.replace node replacement = .ok (doc', m) := h
      unfold Document.replace at hreplace
      split at hreplace
      · cases hreplace
      · rename_i parent hparent
        cases hreplace
        refine ⟨parent.key, fun n => n.replaceChild node.key (doc.tree.adopt replacement).1, rfl,
          rfl, fun _ => rfl, fun p hp hkeeps n hn => ?_⟩
        exact Node.inside_replaceChild hp hn (Node.inside_number hp.shallow hkeeps _) node.key

/-! ## Fragments -/

/-- Whatever markup a patch brings in, it has been read. -/
theorem sound_of_fragment {prefixes : Entries String String} {markup : String} {node : Node}
    (h : Document.fragment prefixes markup = .ok node) : node.Inside Node.Sound := by
  unfold Document.fragment at h
  split at h
  · cases h
  · rename_i source hread
    obtain ⟨hroot, -, -⟩ := Xml.Source.sound_of_ofText hread
    split at h
    · cases h
    · rename_i child others hchildren
      cases h
      have hmem : child ∈ source.root.children := by
        rw [hchildren]
        exact List.mem_cons_self
      obtain ⟨hchild, hinner⟩ := Node.inside_iff.mp fun n hn => hroot n (.child hmem hn)
      refine Node.inside_iff.mpr ⟨⟨⟨hchild.proper.name, hchild.proper.keys, hchild.proper.nodup⟩,
        ⟨hchild.legal.text, Xml.allLegal_nil, hchild.legal.values⟩⟩, hinner⟩

theorem qualify_congr (h : doc'.prefixes = doc.prefixes) : doc'.qualify = doc.qualify := by
  funext name
  rw [qualify, qualify, h]

end Document

namespace Patch

open Document

variable {doc doc' : Document} {m : Mutation} {p : Node → Prop} {patch : Patch} {enforce : Bool}

/-- What a patch sets keeps a property. -/
def Keeps (p : Node → Prop) (doc : Document) : Patch → Prop
  | .setAttr _ name value => ∀ n, p n → p (n.setAttribute (doc.qualify name) value)
  | .setText _ text => ∀ n, p n → p (n.setText text)
  | .sealScene _ => ∀ n, p n → p (n.setAttribute (doc.qualify "sealed") (some "true"))
  | _ => True

theorem Keeps.congr (h : patch.Keeps p doc) (hprefixes : doc'.prefixes = doc.prefixes) :
    patch.Keeps p doc' := by
  cases patch with
  | setAttr id name value => rwa [Keeps, qualify_congr hprefixes]
  | sealScene id => rwa [Keeps, qualify_congr hprefixes]
  | appendNode _ _ _ | removeNode _ | setText _ _ | replaceSubtree _ _ => exact h

theorem Asks.keeps {target : Node} {e : Edit} (hasks : Asks doc target patch e)
    (hsound : ∀ n : Node, n.Sound → p n) (h : patch.Keeps p doc) : e.Keeps p doc := by
  cases hasks with
  | appendNode read => exact fun n hn => hsound n (sound_of_fragment read n hn)
  | removeNode id => trivial
  | setAttr id name value => exact h
  | setText id text => exact h
  | replaceSubtree read => exact fun n hn => hsound n (sound_of_fragment read n hn)
  | sealScene id => exact h

/-- What a patch changes neither: the prefixes of a document, and what stands behind its root. -/
theorem frame_of_apply (h : patch.apply enforce doc = .ok (doc', m)) :
    doc'.prefixes = doc.prefixes ∧ doc'.tree.root.tail = doc.tree.root.tail := by
  obtain ⟨target, e, -, -, hedit⟩ := edit_of_patch h
  obtain ⟨key, f, hroot, hprefixes, htail, -⟩ := modified_of_edit hedit
  refine ⟨hprefixes, ?_⟩
  rw [hroot, Node.modify_eq]
  split
  · exact htail _
  · rfl

theorem inside_of_apply (hp : Node.Local p) (hsound : ∀ n : Node, n.Sound → p n)
    (hdoc : doc.tree.root.Inside p) (hkeeps : patch.Keeps p doc)
    (h : patch.apply enforce doc = .ok (doc', m)) : doc'.tree.root.Inside p := by
  obtain ⟨target, e, -, hasks, hedit⟩ := edit_of_patch h
  obtain ⟨key, f, hroot, -, -, hf⟩ := modified_of_edit hedit
  rw [hroot]
  exact Node.inside_modify hp.shallow (hf p hp (hasks.keeps hsound hkeeps)) hdoc key

/-! ## Batches -/

theorem applyAll_cons {entry : Option Patch} {rest : List (Option Patch)}
    (h : applyAll enforce doc (entry :: rest) = .ok doc') :
    ∃ patch next m, entry = some patch ∧ patch.apply enforce doc = .ok (next, m) ∧
      applyAll enforce next rest = .ok doc' := by
  rw [applyAll] at h
  split at h
  · cases h
  · rename_i next m hentry
    cases entry with
    | none => cases hentry
    | some patch => exact ⟨patch, next, m, rfl, hentry, h⟩

theorem frame_of_applyAll {batch : List (Option Patch)}
    (h : applyAll enforce doc batch = .ok doc') :
    doc'.prefixes = doc.prefixes ∧ doc'.tree.root.tail = doc.tree.root.tail := by
  induction batch generalizing doc with
  | nil =>
      cases h
      exact ⟨rfl, rfl⟩
  | cons entry rest ih =>
      obtain ⟨patch, next, m, rfl, happly, hrest⟩ := applyAll_cons h
      obtain ⟨hprefixes, htail⟩ := frame_of_apply happly
      obtain ⟨hprefixes', htail'⟩ := ih hrest
      exact ⟨hprefixes'.trans hprefixes, htail'.trans htail⟩

theorem inside_of_applyAll {batch : List (Option Patch)} (hp : Node.Local p)
    (hsound : ∀ n : Node, n.Sound → p n) (hdoc : doc.tree.root.Inside p)
    (hkeeps : ∀ patch, some patch ∈ batch → patch.Keeps p doc)
    (h : applyAll enforce doc batch = .ok doc') : doc'.tree.root.Inside p := by
  induction batch generalizing doc with
  | nil =>
      cases h
      exact hdoc
  | cons entry rest ih =>
      obtain ⟨patch, next, m, rfl, happly, hrest⟩ := applyAll_cons h
      have hnext := inside_of_apply hp hsound hdoc (hkeeps patch List.mem_cons_self) happly
      refine ih hnext (fun patch' hpatch' => ?_) hrest
      exact (hkeeps patch' (List.mem_cons_of_mem _ hpatch')).congr (frame_of_apply happly).1

end Patch

end Cuesheet
