import Cuesheet.Proofs.Document.Spelled
import Cuesheet.Proofs.Document.Writing

/-!
# Documents, written and read again

A spelled document is written with the labels that are chosen for its namespaces (`WrittenWith`).
What was written is read as the tree with its line ends normalized and with the labels as its
prefixes (`WrittenWith.reread`, `mem_prefixes_reread`), or not at all (`WrittenWith.inside_legal`).
-/

namespace Cuesheet

open Xml (Node Registry Labels xmlUri)

namespace Document

variable {doc : Document} {registry registered : Registry} {labels : Labels}
  {written uri label : String}

theorem Spelled.names (hdoc : doc.Spelled) :
    ∀ name ∈ Labels.names doc.tree.root, Xml.Proper name := by
  intro name hname
  obtain ⟨n, hn, rfl | hkey⟩ := Labels.mem_names.mp hname
  · exact (hdoc.root n hn).name
  · exact ((hdoc.root n hn).keys name hkey).1

/-- A spelled document can be written unless it declares a prefix that is kept. -/
theorem Spelled.write_ok_iff_unreserved (hdoc : doc.Spelled) (registry : Registry) :
    (∃ text, (doc.write registry).2 = .ok text) ↔
      ∀ entry ∈ doc.prefixes, Registry.isReserved entry.2 = false := by
  rw [write_ok_iff]
  refine ⟨fun h => h.prefixes, fun h => ⟨h, fun name hname => ?_⟩⟩
  rw [← Xml.splitExpanded_ok_iff]
  cases hdoc.names name hname with
  | simple hpart => exact ⟨_, Xml.splitExpanded_simple hpart⟩
  | within huri hpart => exact ⟨_, Xml.splitExpanded_expand _ (Xml.brace_notMem hpart)⟩

/-- A text is what is written for a document, with what is registered and the labels chosen. -/
structure WrittenWith (doc : Document) (registered : Registry) (labels : Labels)
    (written : String) : Prop where
  proper : Registry.Proper registered
  chosen : Labels.ofTree registered doc.tree.root = .ok labels
  text : written = String.ofList
    (Xml.nodeChars (labels.written registered) labels.declarations doc.tree.root)

theorem writtenWith_of_binds (hprefixes : ∀ entry ∈ doc.prefixes, Xml.Binds entry.1 entry.2)
    (hregistry : Registry.Proper registry) (h : (doc.write registry).2 = .ok written) :
    ∃ registered labels, registry.registerAll doc.prefixes = (registered, none) ∧
      doc.WrittenWith registered labels written := by
  have hproper := Registry.proper_registerAll hregistry hprefixes
  unfold Document.write at h
  split at h
  · cases h
  · rename_i registered hregister
    rw [hregister] at hproper
    simp only [Xml.render] at h
    cases hlabels : Labels.ofTree registered doc.tree.root with
    | error fault => rw [hlabels] at h; cases h
    | ok labels =>
        rw [hlabels] at h
        cases h
        exact ⟨registered, labels, hregister, hproper, hlabels, rfl⟩

theorem writtenWith_of_write (hdoc : doc.Spelled) (hregistry : Registry.Proper registry)
    (h : (doc.write registry).2 = .ok written) :
    ∃ registered labels, registry.registerAll doc.prefixes = (registered, none) ∧
      doc.WrittenWith registered labels written :=
  writtenWith_of_binds hdoc.prefixes hregistry h

/-- Conversely, where the prefixes can be registered and the labels chosen, that is written. -/
theorem write_of_writtenWith (hregister : registry.registerAll doc.prefixes = (registered, none))
    (h : doc.WrittenWith registered labels written) : (doc.write registry).2 = .ok written := by
  rw [Document.write, hregister]
  simp only [Xml.render, h.chosen, h.text]
  rfl

namespace WrittenWith

theorem labels_proper (hdoc : doc.Spelled) (h : doc.WrittenWith registered labels written) :
    Labels.Proper registered labels ∧ Labels.Covers labels (Labels.names doc.tree.root) :=
  Labels.proper_of_ofTree h.proper (fun _ => Labels.bindable_of_uses hdoc.names) h.chosen

theorem legible (hdoc : doc.Spelled) (h : doc.WrittenWith registered labels written) :
    ∀ n, doc.tree.root.Encloses n → Xml.Legible (labels.written registered) labels.scope n := by
  intro n hn
  obtain ⟨hlabels, hcovers⟩ := h.labels_proper hdoc
  exact Xml.legible_written h.proper hlabels hcovers (hdoc.root n hn) hn

theorem allLegal_iff (hdoc : doc.Spelled) (h : doc.WrittenWith registered labels written) :
    Xml.AllLegal (Xml.nodeChars (labels.written registered) labels.declarations doc.tree.root) ↔
      doc.tree.root.Inside Node.Legal := by
  obtain ⟨hlabels, -⟩ := h.labels_proper hdoc
  refine Xml.allLegal_nodeChars_iff (Labels.declarable h.proper hlabels) ?_ doc.tree.root
    (h.legible hdoc)
  intro entry hentry
  exact (hlabels.bindable _ (Labels.mem_declarations.mp hentry)).legal

/-- What was written for a document is read as the document, but for its line ends. -/
theorem reread (hdoc : doc.Spelled) (h : doc.WrittenWith registered labels written)
    (hlegal : doc.tree.root.Inside Node.Legal) :
    Xml.Source.ofMarkup written =
      .ok { root := doc.tree.root.normalized, bindings := labels.declarations } := by
  obtain ⟨hlabels, -⟩ := h.labels_proper hdoc
  rw [h.text]
  exact Xml.Source.ofMarkup_written (Labels.declarable h.proper hlabels) (h.legible hdoc)
    hdoc.tail ((h.allLegal_iff hdoc).mpr hlegal)

/-- It is read only if all its characters may stand in a document. -/
theorem inside_legal (hdoc : doc.Spelled) (h : doc.WrittenWith registered labels written)
    {source : Xml.Source} (hread : Xml.Source.ofMarkup written = .ok source) :
    doc.tree.root.Inside Node.Legal := by
  by_contra hnot
  have hillegal := mt (h.allLegal_iff hdoc).mp hnot
  rw [h.text, Xml.Source.ofMarkup_illegal hdoc.tail hillegal] at hread
  cases hread

end WrittenWith

/-! ## The prefixes that are read -/

theorem mem_prefixes_reread {root : Node} (hregistry : Registry.Proper registered)
    (hlabels : Labels.Proper registered labels) :
    (uri, label) ∈ Xml.Source.prefixes { root, bindings := labels.declarations } ↔
      (uri, label) ∈ labels := by
  have hnonempty : ∀ entry ∈ labels.declarations, entry.1 ≠ "" := by
    rintro ⟨label', uri'⟩ hentry rfl
    have hbinds := Labels.binds_of_mem hregistry hlabels (Labels.mem_declarations.mp hentry)
    cases hbinds.simple
  have huris : (labels.declarations.map (·.2)).Nodup := by
    have hperm := (List.mergeSort_perm (labels.map fun entry => (entry.2, entry.1))
      fun a b => a.1 ≤ b.1).map (·.2)
    rw [List.map_map] at hperm
    exact hperm.nodup_iff.mpr hlabels.uris
  rw [Xml.Source.prefixes_of_nodup hnonempty huris, List.mem_map, ← Labels.mem_declarations]
  constructor
  · rintro ⟨entry, hentry, heq⟩
    cases heq
    exact hentry
  · intro hentry
    exact ⟨_, hentry, rfl⟩

/-- The prefix that is read for a namespace is its label. -/
theorem value?_prefixes_reread {root : Node} (hregistry : Registry.Proper registered)
    (hlabels : Labels.Proper registered labels) :
    Entries.value? (Xml.Source.prefixes { root, bindings := labels.declarations }) uri =
      labels.value? uri := by
  have hmem : ∀ {label},
      (uri, label) ∈ Xml.Source.prefixes { root, bindings := labels.declarations } ↔
        (uri, label) ∈ labels := mem_prefixes_reread hregistry hlabels
  have hsound : Xml.Scope.Sound labels.declarations := fun entry hentry =>
    .inr (Labels.binds_of_mem hregistry hlabels (Labels.mem_declarations.mp hentry))
  have huris :
      (Entries.keys (Xml.Source.prefixes { root, bindings := labels.declarations })).Nodup :=
    (Xml.Source.binds_of_prefixes hsound).2
  cases hvalue : labels.value? uri with
  | some label =>
      have hlabel := (Entries.value?_eq_some_iff hlabels.uris).mp hvalue
      exact (Entries.value?_eq_some_iff huris).mpr (hmem.mpr hlabel)
  | none =>
      have hnone := Entries.value?_eq_none_iff.mp hvalue
      refine Entries.value?_eq_none_iff.mpr fun hkey => hnone ?_
      obtain ⟨label, hlabel⟩ := Entries.mem_keys.mp hkey
      exact Entries.mem_keys.mpr ⟨label, hmem.mp hlabel⟩

/-! ## An element in a document -/

open Xml (Scope Item attributeChars isLegal)

/-- A document of one element with a tag, both tags with attributes. -/
def enclosing (tag : String) (outer inner : List (String × String)) : String :=
  String.ofList ('<' :: ("vml".toList ++
    (outer.flatMap (fun pair => attributeChars pair.1 pair.2) ++ '>' :: '<' :: (tag.toList ++
      (inner.flatMap (fun pair => attributeChars pair.1 pair.2) ++ ' ' :: '/' :: '>' ::
        '<' :: '/' :: ("vml".toList ++ ['>']))))))

/-- A document of one box, both tags with attributes. -/
def boxed (outer inner : List (String × String)) : String :=
  String.ofList ('<' :: ("vml".toList ++
    (outer.flatMap (fun pair => attributeChars pair.1 pair.2) ++ '>' :: '<' :: ("box".toList ++
      (inner.flatMap (fun pair => attributeChars pair.1 pair.2) ++ ' ' :: '/' :: '>' ::
        '<' :: '/' :: ("vml".toList ++ ['>']))))))

theorem boxed_eq (outer inner : List (String × String)) :
    boxed outer inner = enclosing "box" outer inner := rfl

/-- The document. -/
def boxDocument (name : String) (attributes : Entries String String) (name' : String)
    (attributes' prefixes : Entries String String) : Document where
  tree := .ofNode { name, attributes, children := [{ name := name', attributes := attributes' }] }
  prefixes

/-- What can be checked about the attributes of a tag. -/
def checksTag (pairs : List (String × String)) : Bool :=
  pairs.all (fun pair => Xml.Declarations.isQualifiedName pair.1.toList) &&
    decide (pairs.map (·.1)).Nodup

theorem reads_checkedTag {name : List Char} {pairs : List (String × String)}
    {ending rest : List Char} {tagEnd : Item.TagEnd} (hname : Xml.IsQualified name)
    (hpairs : checksTag pairs = true) (hends : Xml.EndsName ending)
    (hending : Item.EndsTag ending tagEnd rest) :
    ∃ cs', Xml.Reads (Xml.qualifiedName (name ++
        (pairs.flatMap (fun pair => attributeChars pair.1 pair.2) ++ ending))) name cs' ∧
      ∃ hle, Item.readAttributes {} [] cs' = .ok (pairs, tagEnd, ⟨rest, hle⟩) := by
  rw [checksTag, Bool.and_eq_true, List.all_eq_true, decide_eq_true_eq] at hpairs
  obtain ⟨hnames, hnodup⟩ := hpairs
  exact Xml.readElement_tag hname
    (fun pair hpair => Xml.Declarations.isQualified_of_isQualifiedName (hnames pair hpair))
    hnodup hends hending

variable {tag : String} {outer inner : List (String × String)}

theorem readElement_enclosing (htag : Xml.isSimpleName tag.toList = true)
    (houter : checksTag outer = true) (hinner : checksTag inner = true) :
    Xml.Reads (Item.readElement {} [] (enclosing tag outer inner).toList.tail)
      (.element "vml".toList outer [.element tag.toList inner []]) [] := by
  have hclose : ∃ hle, Item.readContent {} [] ('<' :: '/' :: ("vml".toList ++ ['>'])) =
      .ok ([], ⟨'<' :: '/' :: ("vml".toList ++ ['>']), hle⟩) :=
    ⟨Nat.le_refl _, by rw [Item.readContent]⟩
  have htagName : Xml.IsQualified tag.toList := .inl htag
  obtain ⟨cs, helement, hread⟩ := reads_checkedTag htagName hinner
    (Xml.endsName_cons (by decide +kernel) (by decide))
    (Item.endsTag_empty ('<' :: '/' :: ("vml".toList ++ ['>'])))
  obtain ⟨c, more, hcons, hc⟩ := htagName.exists_cons
  have hinside := Xml.readContent_element ⟨c, _, by rw [hcons]; rfl, hc⟩
    (Xml.readElement_empty helement hread) hclose
  have hvmlName : Xml.IsQualified "vml".toList := .inl (by decide +kernel)
  obtain ⟨cs', hvml, hread'⟩ := reads_checkedTag hvmlName houter
    (Xml.endsName_cons (by decide +kernel) (by decide)) (Item.endsTag_opened _)
  rw [enclosing, String.toList_ofList]
  exact Xml.readElement_opened hvml hread' hinside

theorem dropMark_enclosing : Xml.Source.dropMark (enclosing tag outer inner).toList =
    (enclosing tag outer inner).toList := by
  rw [enclosing, String.toList_ofList]
  rfl

theorem trim_enclosing :
    Text.trim (enclosing tag outer inner) = enclosing tag outer inner :=
  Xml.Source.trim_of_ends '<' '>' rfl (by simp [List.getLast?_cons, List.getLast?_append])
    (by decide) (by decide)

/-- What is read for the text, where the names of its tags are resolved so. -/
theorem ofMarkup_enclosing (bound bound' : List (String × String)) {name name' : String}
    {attributes attributes' : Entries String String}
    (htag : Xml.isSimpleName tag.toList = true) (houter : checksTag outer = true)
    (hinner : checksTag inner = true)
    (hchars : (enclosing tag outer inner).toList.all (fun c => isLegal c && c != '\r') = true)
    (hbound : Scope.bindings outer = .ok bound) (hbound' : Scope.bindings inner = .ok bound')
    (hname : Scope.elementName (bound.reverse ++ Scope.initial) "vml" = .ok name)
    (hname' : Scope.elementName (bound'.reverse ++ (bound.reverse ++ Scope.initial)) tag =
      .ok name')
    (hattributes : Scope.attributes (bound.reverse ++ Scope.initial) outer = .ok attributes)
    (hattributes' : Scope.attributes (bound'.reverse ++ (bound.reverse ++ Scope.initial)) inner =
      .ok attributes') :
    Xml.Source.ofMarkup (enclosing tag outer inner) = .ok {
      root := { name, attributes, children := [{ name := name', attributes := attributes' }] }
      bindings := bound ++ bound' } := by
  rw [← String.ofList_toList (s := tag)] at hname'
  have helement := Xml.resolve_cons hbound' hname' hattributes' (Xml.resolve_nil _)
    (Xml.resolve_nil _)
  have hresolve := Xml.resolve_cons hbound hname hattributes helement (Xml.resolve_nil _)
  simp only [List.append_nil] at hresolve
  obtain ⟨hlegal, hnormal⟩ := Xml.normalized_of_all hchars
  have hlines : Xml.normalizeLines (Xml.Source.dropMark (enclosing tag outer inner).toList) =
      (enclosing tag outer inner).toList := by
    rw [dropMark_enclosing]
    exact hnormal
  have hitem := readElement_enclosing htag houter hinner
  have hstart := hlines.trans String.toList_ofList
  rw [enclosing, String.toList_ofList] at hlegal hitem
  rw [Xml.Source.ofMarkup, trim_enclosing,
    Xml.Source.ofText_element hstart hlegal (by decide +kernel) hitem hresolve rfl]

/-- What is read for the text of a box, where the names of its tags are resolved so. -/
theorem ofText_boxed {bound bound' : List (String × String)} {name name' : String}
    {attributes attributes' prefixes : Entries String String} (houter : checksTag outer = true)
    (hinner : checksTag inner = true)
    (hchars : (boxed outer inner).toList.all (fun c => isLegal c && c != '\r') = true)
    (hbound : Scope.bindings outer = .ok bound) (hbound' : Scope.bindings inner = .ok bound')
    (hname : Scope.elementName (bound.reverse ++ Scope.initial) "vml" = .ok name)
    (hname' : Scope.elementName (bound'.reverse ++ (bound.reverse ++ Scope.initial)) "box" =
      .ok name')
    (hattributes : Scope.attributes (bound.reverse ++ Scope.initial) outer = .ok attributes)
    (hattributes' : Scope.attributes (bound'.reverse ++ (bound.reverse ++ Scope.initial)) inner =
      .ok attributes')
    (hprefixes : (bound ++ bound').foldl Xml.Source.keepFirst [] = prefixes) :
    Document.ofText (boxed outer inner) = .ok
      (boxDocument name attributes name' attributes' prefixes) := by
  rw [boxed_eq] at hchars ⊢
  rw [Document.ofText, ofMarkup_enclosing bound bound' (by decide +kernel) houter hinner hchars
    hbound hbound' hname hname' hattributes hattributes', ← hprefixes]
  rfl

end Document

end Cuesheet
