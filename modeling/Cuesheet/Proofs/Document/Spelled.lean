import Cuesheet.Proofs.Patch.Keeping

/-!
# Documents that markup can spell

A document is `Spelled` if every name in it is one that markup can spell and every prefix one that
may be bound. A document that was read is (`spelled_of_ofText`), and it stays so through patches
that give attributes such names only (`spelled_of_apply`, `Patched.spelled`). What can be
registered is then proper, whatever was written before (`Xml.Registry.Reached.proper`).
-/

namespace Cuesheet

open Xml (Node Registry Bindable Binds isSimpleName)

/-! ## Nodes -/

namespace Xml.Node

variable {node : Node}

/-- Every name in a tree can be spelled. -/
def Spelled (node : Node) : Prop := node.Inside Node.Proper

theorem shallow_proper : Shallow Node.Proper :=
  fun _ _ _ h => ⟨h.name, h.keys, h.nodup⟩

theorem local_proper : Local Node.Proper := ⟨shallow_proper, fun h _ => ⟨h.name, h.keys, h.nodup⟩⟩

theorem shallow_sound : Shallow Node.Sound := by
  intro node key children h
  have hproper := shallow_proper node key children h.proper
  exact ⟨hproper, h.legal.text, h.legal.tail, h.legal.values⟩

/-- Setting an attribute, or removing it, takes no name twice. -/
theorem nodup_setAttribute (h : node.attributes.keys.Nodup) (name : String)
    (value : Option String) : (node.setAttribute name value).attributes.keys.Nodup := by
  cases value with
  | none =>
      have hsub : (node.attributes.remove name).keys.Sublist node.attributes.keys :=
        List.filter_sublist.map _
      exact h.sublist hsub
  | some value => exact Entries.nodup_keys_put h

theorem mem_keys_setAttribute {name key : String} {value : Option String}
    (h : key ∈ (node.setAttribute name value).attributes.keys) :
    key ∈ node.attributes.keys ∨ key = name := by
  cases value with
  | none =>
      have hsub : (node.attributes.remove name).keys.Sublist node.attributes.keys :=
        List.filter_sublist.map _
      exact .inl (hsub.subset h)
  | some value => exact Entries.mem_keys_put.mp h

theorem Proper.setAttribute (h : node.Proper) {name : String} (hname : Xml.Proper name)
    (hbinds : name ≠ "xmlns") (value : Option String) : (node.setAttribute name value).Proper := by
  refine ⟨h.name, fun key hkey => ?_, nodup_setAttribute h.nodup name value⟩
  rcases mem_keys_setAttribute hkey with hkey | rfl
  · exact h.keys key hkey
  · exact ⟨hname, hbinds⟩

end Xml.Node

namespace Document

variable {doc doc' start : Document} {name text markup : String} {patch : Patch}
  {enforce : Bool} {m : Mutation}

structure Spelled (doc : Document) : Prop where
  root : doc.tree.root.Spelled
  tail : doc.tree.root.tail = []
  prefixes : ∀ entry ∈ doc.prefixes, Binds entry.1 entry.2
  uris : doc.prefixes.keys.Nodup

/-! ## Reading -/

theorem source_of_ofText (h : Document.ofText text = .ok doc) :
    ∃ source, Xml.Source.ofMarkup text = .ok source ∧
      doc = { tree := .ofNode source.root, prefixes := source.prefixes } := by
  unfold Document.ofText at h
  cases hsource : Xml.Source.ofMarkup text with
  | error fault => rw [hsource] at h; cases h
  | ok source =>
      rw [hsource] at h
      cases h
      exact ⟨source, rfl, rfl⟩

theorem sound_of_ofMarkup {source : Xml.Source} (h : Xml.Source.ofMarkup text = .ok source) :
    source.root.Inside Node.Sound ∧ source.root.tail = [] ∧
      Xml.Scope.Sound source.bindings := by
  unfold Xml.Source.ofMarkup at h
  split at h
  · cases h
  · rename_i hread
    cases h
    exact Xml.Source.sound_of_ofText hread

theorem sound_of_ofText (h : Document.ofText text = .ok doc) :
    doc.tree.root.Inside Node.Sound := by
  obtain ⟨source, hsource, rfl⟩ := source_of_ofText h
  exact Node.inside_number Node.shallow_sound (sound_of_ofMarkup hsource).1 0

theorem spelled_of_ofText (h : Document.ofText text = .ok doc) : doc.Spelled := by
  have hroot := sound_of_ofText h
  obtain ⟨source, hsource, rfl⟩ := source_of_ofText h
  obtain ⟨-, htail, hbindings⟩ := sound_of_ofMarkup hsource
  obtain ⟨hbinds, huris⟩ := Xml.Source.binds_of_prefixes hbindings
  have hnoTail : (Xml.Tree.ofNode source.root).root.tail = [] := by
    rw [Xml.Tree.ofNode, Node.number_eq]
    exact htail
  exact ⟨fun n hn => (hroot n hn).proper, hnoTail, hbinds, huris⟩

/-! ## Patches -/

/-- A name that a patch may give to an attribute: without a prefix, or with one that the document
declares. The name of a declaration is not one. -/
inductive AttributeName (doc : Document) : String → Prop
  | simple {name : String} (hname : isSimpleName name.toList = true) (hbinds : name ≠ "xmlns") :
      AttributeName doc name
  | prefixed {uri label part : String} (hlabel : (uri, label) ∈ doc.prefixes)
      (hpart : isSimpleName part.toList = true) : AttributeName doc (label ++ ":" ++ part)

theorem qualify_proper (hdoc : doc.Spelled) (h : doc.AttributeName name) :
    Xml.Proper (doc.qualify name) ∧ doc.qualify name ≠ "xmlns" := by
  cases h with
  | simple hname hbinds =>
      rw [qualify, Xml.splitAtFirst_eq_none (Xml.colon_notMem hname)]
      exact ⟨.simple hname, hbinds⟩
  | @prefixed uri label part hlabel hpart =>
      have hsimple : isSimpleName label.toList = true := (hdoc.prefixes _ hlabel).simple
      have hlist : (label ++ ":" ++ part).toList = label.toList ++ ':' :: part.toList := by simp
      rw [qualify, hlist, Xml.splitAtFirst_of_notMem (Xml.colon_notMem hsimple)]
      simp only [String.ofList_toList]
      cases hfind : doc.prefixes.find? fun entry => entry.2 == label with
      | none =>
          have hnone := List.find?_eq_none.mp hfind (uri, label) hlabel
          simp at hnone
      | some entry =>
          have hbinds := hdoc.prefixes entry (List.mem_of_find?_eq_some hfind)
          refine ⟨.within hbinds.bindable hpart, ?_⟩
          exact Xml.expand_ne_simple Xml.isSimpleName_xmlns

/-- The names that a patch gives to attributes are names of attributes. -/
def Names (doc : Document) : Patch → Prop
  | .setAttr _ name _ => doc.AttributeName name
  | _ => True

theorem keeps_proper (hdoc : doc.Spelled) (hnames : doc.Names patch) :
    patch.Keeps Node.Proper doc := by
  cases patch with
  | setAttr id name value =>
      obtain ⟨hproper, hbinds⟩ := qualify_proper hdoc hnames
      exact fun n hn => hn.setAttribute hproper hbinds value
  | setText id text => exact fun n hn => ⟨hn.name, hn.keys, hn.nodup⟩
  | sealScene id =>
      have hsealed : doc.AttributeName "sealed" := .simple (by decide +kernel) (by decide)
      obtain ⟨hproper, hbinds⟩ := qualify_proper hdoc hsealed
      exact fun n hn => hn.setAttribute hproper hbinds _
  | appendNode _ _ _ | removeNode _ | replaceSubtree _ _ => trivial

/-- A patch that names attributes as markup can leaves a spelled document spelled. -/
theorem spelled_of_apply (hdoc : doc.Spelled) (hnames : doc.Names patch)
    (h : patch.apply enforce doc = .ok (doc', m)) : doc'.Spelled := by
  have hroot := Patch.inside_of_apply Node.local_proper (fun _ hn => hn.proper) hdoc.root
    (keeps_proper hdoc hnames) h
  obtain ⟨hprefixes, htail⟩ := Patch.frame_of_apply h
  exact ⟨hroot, htail.trans hdoc.tail, hprefixes ▸ hdoc.prefixes, hprefixes ▸ hdoc.uris⟩

/-- What successful patches make of a document, each naming attributes as markup can. -/
inductive Patched (start : Document) : Document → Prop
  | refl : Patched start start
  | apply {doc doc' : Document} {patch : Patch} {enforce : Bool} {m : Mutation}
      (before : Patched start doc) (hnames : doc.Names patch)
      (happly : patch.apply enforce doc = .ok (doc', m)) : Patched start doc'

theorem Patched.spelled (h : start.Patched doc) (hstart : start.Spelled) : doc.Spelled := by
  induction h with
  | refl => exact hstart
  | apply before hnames happly ih => exact spelled_of_apply ih hnames happly

end Document

/-! ## Registered prefixes -/

namespace Xml.Registry

/-- What is registered after some documents were written, successfully or not. A document has the
prefixes of the text it was read from, whatever was edited. -/
inductive Reached : Registry → Prop
  | wellKnown : Reached Registry.wellKnown
  | write {registry : Registry} {text : String} {start doc : Document} (before : Reached registry)
      (hread : Document.ofText text = .ok start) (hprefixes : doc.prefixes = start.prefixes) :
      Reached (doc.write registry).1

theorem write_fst (registry : Registry) (doc : Document) :
    (doc.write registry).1 = (registry.registerAll doc.prefixes).1 := by
  unfold Document.write
  split
  · rename_i hregister
    rw [hregister]
  · rename_i hregister
    rw [hregister]

theorem Reached.proper {registry : Registry} (h : Reached registry) : Proper registry := by
  induction h with
  | wellKnown => exact proper_wellKnown
  | write _ hread hprefixes ih =>
      have hspelled := Document.spelled_of_ofText hread
      rw [write_fst, hprefixes]
      exact proper_registerAll ih hspelled.prefixes

end Xml.Registry

end Cuesheet
