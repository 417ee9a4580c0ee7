import Cuesheet.Proofs.Document.Reread

/-!
# Snapshots and written documents

The snapshot of a document and what is read from the written document are made of the same tree,
but name its attributes by different tables: the prefixes that the source text declares, and the
labels chosen when it was written. They agree exactly if the texts hold no carriage return and
nothing else that may not stand in a document, and if the prefixes of the namespaces of attributes
are retained (`snapshot_iff`).
-/

namespace Cuesheet

open Xml (Node Registry Labels Uses Retained xmlUri isSimpleName)

/-! ## Elements of a tree -/

namespace Xml.Node

theorem return_notMem_innerText {node : Node} (h : '\r' ∉ node.innerText) :
    '\r' ∉ node.text ∧ ∀ child ∈ node.children, '\r' ∉ child.innerText ∧ '\r' ∉ child.tail := by
  rw [innerText_eq, List.mem_append, not_or] at h
  obtain ⟨htext, hchildren⟩ := h
  refine ⟨htext, fun child hchild => ?_⟩
  have hnot : '\r' ∉ child.innerText ++ child.tail := fun hmem =>
    hchildren (List.mem_flatMap.mpr ⟨child, hchild, hmem⟩)
  exact not_or.mp (mt List.mem_append.mpr hnot)

/-- A tree that is read back holds no carriage return. -/
theorem return_notMem_normalized (node : Node) : '\r' ∉ node.normalized.innerText := by
  induction node using children_induction with
  | step node ih =>
      rw [innerText_eq, normalized_eq]
      intro hmem
      rcases List.mem_append.mp hmem with hmem | hmem
      · exact return_notMem_normalizeLines _ hmem
      · obtain ⟨child, hchild, hmem⟩ := List.mem_flatMap.mp hmem
        obtain ⟨child', hchild', rfl⟩ := List.mem_map.mp hchild
        rcases List.mem_append.mp hmem with hmem | hmem
        · exact ih child' hchild' hmem
        · rw [normalized_eq] at hmem
          exact return_notMem_normalizeLines _ hmem

theorem innerText_normalized {node : Node} (h : '\r' ∉ node.innerText) :
    node.normalized.innerText = node.innerText := by
  induction node using children_induction with
  | step node ih =>
      obtain ⟨htext, hchildren⟩ := return_notMem_innerText h
      have hsame : ∀ child ∈ node.children,
          child.normalized.innerText ++ child.normalized.tail = child.innerText ++ child.tail := by
        intro child hchild
        obtain ⟨hinner, htail⟩ := hchildren child hchild
        have hnoReturn : child.normalized.tail = child.tail := by
          rw [normalized_eq]
          exact normalizeLines_eq_self_iff.mpr htail
        rw [ih child hchild hinner, hnoReturn]
      rw [innerText_eq, innerText_eq node, normalized_eq]
      simp only [List.flatMap_map]
      rw [normalizeLines_eq_self_iff.mpr htext, List.flatMap_congr hsame]

end Xml.Node

namespace Element

variable {prefixes prefixes' : Entries String String} {attributes : Entries String String}
  {node : Node} {el : Element} {uri label part name : String}

/-! ## Names of attributes -/

theorem attributeName_simple (h : isSimpleName name.toList = true) :
    attributeName prefixes name = .ok name := by
  obtain ⟨c, rest, hname, hc, -⟩ := Xml.exists_cons_of_isSimpleName h
  have hbrace : c ≠ '\x7b' := Xml.ne_of_isNameStart hc (by decide +kernel)
  rw [attributeName, hname]
  split
  · rename_i hcons
    exact absurd (List.cons.inj hcons).1 hbrace
  · rfl

theorem attributeName_of_none (huri : '\x7d' ∉ uri.toList) (h : prefixes.value? uri = none) :
    attributeName prefixes (Xml.expand uri part) = .ok part := by
  simp [attributeName, Xml.toList_expand, Xml.splitAtFirst_of_notMem huri, h]

theorem attributeName_of_some (huri : '\x7d' ∉ uri.toList)
    (hlabel : isSimpleName label.toList = true) (h : prefixes.value? uri = some label) :
    attributeName prefixes (Xml.expand uri part) = .ok (label ++ ":" ++ part) := by
  have hnonempty : label ≠ "" := by
    rintro rfl
    cases hlabel
  simp [attributeName, Xml.toList_expand, Xml.splitAtFirst_of_notMem huri, h, hnonempty]

/-- The name depends on the prefix of its namespace only. -/
theorem attributeName_congr (huri : '\x7d' ∉ uri.toList)
    (h : prefixes.value? uri = prefixes'.value? uri) :
    attributeName prefixes (Xml.expand uri part) =
      attributeName prefixes' (Xml.expand uri part) := by
  simp [attributeName, Xml.toList_expand, Xml.splitAtFirst_of_notMem huri, h]

/-- The parts of a name with a prefix. -/
theorem prefixed_inj {label label' part part' : String} (hlabel : isSimpleName label.toList = true)
    (hlabel' : isSimpleName label'.toList = true)
    (h : label ++ ":" ++ part = label' ++ ":" ++ part') : label = label' := by
  have hsplit := Xml.Scope.splitName_prefixed hlabel part
  rw [h, Xml.Scope.splitName_prefixed hlabel'] at hsplit
  exact (Option.some.inj (Prod.mk.inj hsplit).1).symm

theorem prefixed_ne_simple (hname : isSimpleName name.toList = true) :
    label ++ ":" ++ part ≠ name := by
  rintro rfl
  have hcolon := Xml.colon_notMem hname
  simp at hcolon

/-- The prefixes in a table are names. -/
def Prefixing (table : Entries String String) : Prop :=
  ∀ {uri label}, table.value? uri = some label → isSimpleName label.toList = true

theorem attributeName_ok {key : String} (hprefixes : Prefixing prefixes) (hkey : Xml.Proper key) :
    ∃ name, attributeName prefixes key = .ok name := by
  cases hkey with
  | simple hpart => exact ⟨_, attributeName_simple hpart⟩
  | @within uri part huri hpart =>
      cases hvalue : prefixes.value? uri with
      | none => exact ⟨_, attributeName_of_none huri.unbraced hvalue⟩
      | some label => exact ⟨_, attributeName_of_some huri.unbraced (hprefixes hvalue) hvalue⟩

/-- A name with a prefix is given to attributes in a namespace that has the prefix. -/
theorem value?_of_attributeName {key : String} (hprefixes : Prefixing prefixes)
    (hkey : Xml.Proper key) (hlabel : isSimpleName label.toList = true)
    (h : attributeName prefixes key = .ok (label ++ ":" ++ part)) :
    ∃ uri, prefixes.value? uri = some label := by
  cases hkey with
  | simple hpart =>
      rw [attributeName_simple hpart] at h
      exact absurd (Except.ok.inj h).symm (prefixed_ne_simple hpart)
  | @within uri part' huri hpart =>
      cases hvalue : prefixes.value? uri with
      | none =>
          rw [attributeName_of_none huri.unbraced hvalue] at h
          exact absurd (Except.ok.inj h).symm (prefixed_ne_simple hpart)
      | some label' =>
          have hlabel' := hprefixes hvalue
          rw [attributeName_of_some huri.unbraced hlabel' hvalue] at h
          have hsame := prefixed_inj hlabel' hlabel (Except.ok.inj h)
          exact ⟨uri, by rw [hvalue, hsame]⟩

/-! ## Attributes of a node -/

/-- Puts an attribute under its prefixed name. -/
def putNamed (prefixes done : Entries String String) (entry : String × String) :
    Except Xml.NameFault (Entries String String) :=
  (attributeName prefixes entry.1).map fun name => done.put name entry.2

theorem foldlM_putNamed_congr (h : ∀ key ∈ attributes.keys,
      attributeName prefixes key = attributeName prefixes' key) (done : Entries String String) :
    List.foldlM (putNamed prefixes) done attributes =
      List.foldlM (putNamed prefixes') done attributes := by
  induction attributes generalizing done with
  | nil => rfl
  | cons entry rest ih =>
      obtain ⟨hentry, hrest⟩ := List.forall_mem_cons.mp h
      have hstep : putNamed prefixes done entry = putNamed prefixes' done entry := by
        rw [putNamed, putNamed, hentry]
      rw [List.foldlM_cons, List.foldlM_cons, hstep]
      exact congrArg _ (funext fun next => ih hrest next)

theorem attributesOf_congr (h : ∀ key ∈ attributes.keys,
      attributeName prefixes key = attributeName prefixes' key) :
    attributesOf prefixes attributes = attributesOf prefixes' attributes :=
  foldlM_putNamed_congr h []

theorem foldlM_putNamed_ok (h : ∀ key ∈ attributes.keys, ∃ name,
      attributeName prefixes key = .ok name) (done : Entries String String) :
    ∃ entries, List.foldlM (putNamed prefixes) done attributes = .ok entries := by
  induction attributes generalizing done with
  | nil => exact ⟨done, rfl⟩
  | cons entry rest ih =>
      obtain ⟨⟨name, hname⟩, hrest⟩ := List.forall_mem_cons.mp h
      rw [List.foldlM_cons, putNamed, hname]
      exact ih hrest (done.put name entry.2)

theorem attributesOf_ok (h : ∀ key ∈ attributes.keys, ∃ name,
      attributeName prefixes key = .ok name) :
    ∃ entries, attributesOf prefixes attributes = .ok entries :=
  foldlM_putNamed_ok h []

theorem mem_keys_foldlM_putNamed {done entries : Entries String String}
    (h : List.foldlM (putNamed prefixes) done attributes = .ok entries) :
    name ∈ entries.keys ↔
      name ∈ done.keys ∨ ∃ key ∈ attributes.keys, attributeName prefixes key = .ok name := by
  induction attributes generalizing done with
  | nil =>
      cases h
      simp [Entries.keys]
  | cons entry rest ih =>
      rw [List.foldlM_cons] at h
      obtain ⟨next, hnext, hrest⟩ := ok_of_bind h
      cases hname : attributeName prefixes entry.1 with
      | error fault =>
          rw [putNamed, hname] at hnext
          cases hnext
      | ok name' =>
          rw [putNamed, hname] at hnext
          cases hnext
          have hkeys : Entries.keys (entry :: rest) = entry.1 :: Entries.keys rest := rfl
          rw [ih hrest, Entries.mem_keys_put, hkeys, List.exists_mem_cons_iff, hname, or_assoc]
          simp [eq_comm]

/-- The attributes are named after those of the node. -/
theorem mem_keys_attributesOf {entries : Entries String String}
    (h : attributesOf prefixes attributes = .ok entries) :
    name ∈ entries.keys ↔ ∃ key ∈ attributes.keys, attributeName prefixes key = .ok name := by
  rw [mem_keys_foldlM_putNamed h]
  simp [Entries.keys]

/-! ## Trees -/

theorem ofNode_ok_iff : ofNode prefixes node = .ok el ↔
    attributesOf prefixes node.attributes = .ok el.attributes ∧
      ofNodes prefixes node.children = .ok el.children ∧
      el.tag = Xml.localName node.name ∧ el.text = String.ofList node.innerText := by
  obtain ⟨key, nodeName, attributes, text, children, tail⟩ := node
  obtain ⟨tag, attributes', children', text'⟩ := el
  rw [ofNode]
  cases attributesOf prefixes attributes with
  | error fault => simp
  | ok found =>
      cases ofNodes prefixes children with
      | error fault => simp
      | ok inside =>
          simp only [Except.ok.injEq, Element.mk.injEq]
          constructor
          · rintro ⟨rfl, rfl, rfl, rfl⟩
            exact ⟨rfl, rfl, rfl, rfl⟩
          · rintro ⟨rfl, rfl, rfl, rfl⟩
            exact ⟨rfl, rfl, rfl, rfl⟩

/-- Two tables name what is in two trees alike. -/
def Alike (prefixes prefixes' : Entries String String) (node node' : Node) : Prop :=
  ∃ el, ofNode prefixes node = .ok el ∧ ofNode prefixes' node' = .ok el

theorem alike_all_iff {f : Node → Node} {nodes : List Node} :
    (∃ els, ofNodes prefixes (nodes.map f) = .ok els ∧ ofNodes prefixes' nodes = .ok els) ↔
      ∀ node ∈ nodes, Alike prefixes prefixes' (f node) node := by
  induction nodes with
  | nil => simp [ofNodes]
  | cons node rest ih =>
      rw [List.forall_mem_cons, ← ih, List.map_cons, ofNodes, ofNodes]
      constructor
      · rintro ⟨els, h, h'⟩
        split at h
        · cases h
        · cases h
        · rename_i el more hel hmore
          cases h
          split at h'
          · cases h'
          · cases h'
          · rename_i el' more' hel' hmore'
            cases h'
            exact ⟨⟨el, hel, hel'⟩, more, hmore, hmore'⟩
      · rintro ⟨⟨el, hel, hel'⟩, els, hels, hels'⟩
        rw [hel, hel', hels, hels']
        exact ⟨el :: els, rfl, rfl⟩

/-- Two tables name the attributes of a node alike. -/
def SameAttributes (prefixes prefixes' : Entries String String) (node : Node) : Prop :=
  ∃ entries, attributesOf prefixes node.attributes = .ok entries ∧
    attributesOf prefixes' node.attributes = .ok entries

theorem SameAttributes.symm (h : SameAttributes prefixes prefixes' node) :
    SameAttributes prefixes' prefixes node := by
  obtain ⟨entries, hentries, hentries'⟩ := h
  exact ⟨entries, hentries', hentries⟩

/-- What one table uses as a prefix is a prefix in the other table. -/
theorem SameAttributes.value? (h : SameAttributes prefixes prefixes' node)
    (hkeys : ∀ key ∈ node.attributes.keys, Xml.Proper key) (hprefixes : Prefixing prefixes)
    (hprefixes' : Prefixing prefixes') (huses : Uses node.attributes.keys uri)
    (hvalue : prefixes.value? uri = some label) : ∃ uri', prefixes'.value? uri' = some label := by
  obtain ⟨entries, hentries, hentries'⟩ := h
  obtain ⟨key, hkey, part, hsplit⟩ := huses
  obtain ⟨rfl, huri⟩ := Xml.eq_expand_of_splitExpanded (hkeys key hkey) hsplit
  have hname : attributeName prefixes (Xml.expand uri part) = .ok (label ++ ":" ++ part) :=
    attributeName_of_some huri.unbraced (hprefixes hvalue) hvalue
  obtain ⟨key', hkey', hname'⟩ := (mem_keys_attributesOf hentries').mp
    ((mem_keys_attributesOf hentries).mpr ⟨_, hkey, hname⟩)
  exact value?_of_attributeName hprefixes' (hkeys key' hkey') (hprefixes hvalue) hname'

theorem sameAttributes_of_value? (hkeys : ∀ key ∈ node.attributes.keys, Xml.Proper key)
    (hprefixes : Prefixing prefixes)
    (h : ∀ uri, Uses node.attributes.keys uri → prefixes.value? uri = prefixes'.value? uri) :
    SameAttributes prefixes prefixes' node := by
  have hsame : ∀ key ∈ node.attributes.keys,
      attributeName prefixes key = attributeName prefixes' key := by
    intro key hkey
    cases hkeys key hkey with
    | simple hpart => rw [attributeName_simple hpart, attributeName_simple hpart]
    | @within uri part huri hpart =>
        exact attributeName_congr huri.unbraced
          (h uri ⟨_, hkey, part, Xml.splitExpanded_expand uri (Xml.brace_notMem hpart)⟩)
  obtain ⟨entries, hentries⟩ :=
    attributesOf_ok fun key hkey => attributeName_ok hprefixes (hkeys key hkey)
  exact ⟨entries, hentries, by rw [← attributesOf_congr hsame, hentries]⟩

/-- A tree as it is read back gives the element of the tree exactly if nothing is lost on its line
ends, and its attributes are named alike. -/
theorem alike_normalized_iff : Alike prefixes prefixes' node.normalized node ↔
    '\r' ∉ node.innerText ∧ node.Inside (SameAttributes prefixes prefixes') := by
  induction node using Node.children_induction with
  | step node ih =>
      have hchildren : node.normalized.children = node.children.map Node.normalized := by
        rw [Node.normalized_eq]
      have hattributes : node.normalized.attributes = node.attributes := by
        rw [Node.normalized_eq]
      have hname : node.normalized.name = node.name := by
        rw [Node.normalized_eq]
      rw [Node.inside_iff]
      constructor
      · rintro ⟨el, hel, hel'⟩
        rw [ofNode_ok_iff, hchildren, hattributes] at hel
        obtain ⟨hentries, hels, -, htext⟩ := hel
        obtain ⟨hentries', hels', -, htext'⟩ := ofNode_ok_iff.mp hel'
        have hsame : node.normalized.innerText = node.innerText :=
          String.ofList_injective (htext.symm.trans htext')
        have hall := alike_all_iff.mp ⟨el.children, hels, hels'⟩
        refine ⟨?_, ⟨el.attributes, hentries, hentries'⟩, fun child hchild => ?_⟩
        · rw [← hsame]
          exact node.return_notMem_normalized
        · exact ((ih child hchild).mp (hall child hchild)).2
      · rintro ⟨hreturn, ⟨entries, hentries, hentries'⟩, hinside⟩
        obtain ⟨-, hreturns⟩ := Node.return_notMem_innerText hreturn
        obtain ⟨els, hels, hels'⟩ := alike_all_iff.mpr fun child hchild =>
          (ih child hchild).mpr ⟨(hreturns child hchild).1, hinside child hchild⟩
        refine ⟨⟨Xml.localName node.name, entries, els, String.ofList node.innerText⟩, ?_, ?_⟩
        · rw [ofNode_ok_iff, hchildren, hattributes, hname, Node.innerText_normalized hreturn]
          exact ⟨hentries, hels, rfl, rfl⟩
        · exact ofNode_ok_iff.mpr ⟨hentries', hels', rfl, rfl⟩

end Element

/-! ## Prefixes that come back -/

namespace Document

variable {doc start : Document} {registry registered : Registry} {labels : Labels}
  {written text uri label : String}

/-- A namespace has the same prefix, or the same lack of one, when a document is read again. -/
def Retains (doc : Document) (uri : String) : Prop :=
  uri = xmlUri ∧ doc.prefixes.value? uri = none ∨
    uri ≠ xmlUri ∧ ∃ label, Retained doc.prefixes uri label

namespace WrittenWith

variable {registry : Registry}

/-- The namespaces of a tree have labels, but for that of `xml`. -/
theorem label_cases (hdoc : doc.Spelled) (h : doc.WrittenWith registered labels written)
    (huses : Uses (Labels.names doc.tree.root) uri) :
    uri = xmlUri ∧ labels.value? uri = none ∨
      uri ≠ xmlUri ∧ ∃ label, labels.value? uri = some label := by
  obtain ⟨hlabels, hcovers⟩ := h.labels_proper hdoc
  by_cases hxml : uri = xmlUri
  · refine .inl ⟨hxml, Entries.value?_eq_none_iff.mpr fun hmem => ?_⟩
    obtain ⟨label, hentry⟩ := Entries.mem_keys.mp hmem
    have hbinds := Labels.binds_of_mem h.proper hlabels hentry
    exact (hlabels.chosen _ hentry).ne_xml (hbinds.xml_iff.mpr hxml)
  · rcases hcovers.all uri huses with heq | hmem
    · exact absurd heq hxml
    · obtain ⟨label, hentry⟩ := Entries.mem_keys.mp hmem
      exact .inr ⟨hxml, label, (Entries.value?_eq_some_iff hlabels.uris).mpr hentry⟩

/-- A label that the document declares is that of a retained prefix. -/
theorem retained_of_label (hdoc : doc.Spelled) (h : doc.WrittenWith registered labels written)
    (hregister : registry.registerAll doc.prefixes = (registered, none)) {uri' : String}
    (hlabel : labels.value? uri = some label) (hmem : (uri', label) ∈ doc.prefixes) :
    Retained doc.prefixes uri label := by
  obtain ⟨hlabels, -⟩ := h.labels_proper hdoc
  have hunreserved : Registry.isReserved label = false := by
    have hnone : (registry.registerAll doc.prefixes).2 = none := by rw [hregister]
    exact (Registry.registerAll_eq_none_iff registry doc.prefixes).mp hnone _ hmem
  have hchosen : Labels.Chosen registered labels.length uri label :=
    hlabels.chosen _ (Entries.mem_of_value? hlabel)
  rcases hchosen with ⟨hvalue, -⟩ | ⟨-, n, -, rfl⟩
  · rcases (Registry.mem_registerAll_iff hregister).mp (Entries.mem_of_value? hvalue) with
      hretained | ⟨-, hother⟩
    · exact hretained
    · exact absurd rfl (hother _ hmem).2
  · rw [Xml.isReserved_numbered] at hunreserved
    cases hunreserved

/-- A retained prefix is the label. -/
theorem label_of_retained (hdoc : doc.Spelled) (h : doc.WrittenWith registered labels written)
    (hregister : registry.registerAll doc.prefixes = (registered, none))
    (hretained : Retained doc.prefixes uri label) {label' : String}
    (hlabel : labels.value? uri = some label') : label' = label := by
  obtain ⟨hlabels, -⟩ := h.labels_proper hdoc
  have hvalue : registered.value? uri = some label :=
    h.proper.value?_eq_some_iff.mpr ((Registry.mem_registerAll_iff hregister).mpr (.inl hretained))
  have hchosen : Labels.Chosen registered labels.length uri label' :=
    hlabels.chosen _ (Entries.mem_of_value? hlabel)
  rcases hchosen with ⟨hvalue', -⟩ | ⟨hnone, -⟩
  · rw [hvalue] at hvalue'
    exact (Option.some.inj hvalue').symm
  · rw [hvalue] at hnone
    cases hnone

/-- Where its prefix is retained, a namespace has it as its label. -/
theorem value?_of_retains (hdoc : doc.Spelled) (h : doc.WrittenWith registered labels written)
    (hregister : registry.registerAll doc.prefixes = (registered, none))
    (huses : Uses (Labels.names doc.tree.root) uri) (hretains : doc.Retains uri) :
    labels.value? uri = doc.prefixes.value? uri := by
  rcases hretains with ⟨hxml, hnone⟩ | ⟨hne, label, hretained⟩
  · rcases h.label_cases hdoc huses with ⟨-, hunlabelled⟩ | ⟨hne, -⟩
    · rw [hunlabelled, hnone]
    · exact absurd hxml hne
  · rcases h.label_cases hdoc huses with ⟨hxml, -⟩ | ⟨-, label', hlabel⟩
    · exact absurd hxml hne
    · have hdeclared : doc.prefixes.value? uri = some label :=
        (Entries.value?_eq_some_iff hdoc.uris).mpr hretained.mem
      rw [hlabel, hdeclared, h.label_of_retained hdoc hregister hretained hlabel]

/-- With the labels as their prefixes, the attributes of a node are named as in the document
exactly if their namespaces retain the prefixes. -/
theorem sameAttributes_iff {table : Entries String String} {n : Node} (hdoc : doc.Spelled)
    (h : doc.WrittenWith registered labels written)
    (hregister : registry.registerAll doc.prefixes = (registered, none))
    (htable : ∀ uri, table.value? uri = labels.value? uri) (hn : doc.tree.root.Encloses n) :
    Element.SameAttributes table doc.prefixes n ↔
      ∀ uri, Uses n.attributes.keys uri → doc.Retains uri := by
  obtain ⟨hlabels, -⟩ := h.labels_proper hdoc
  have hkeys : ∀ key ∈ n.attributes.keys, Xml.Proper key :=
    fun key hkey => ((hdoc.root n hn).keys key hkey).1
  have hused : ∀ {uri}, Uses n.attributes.keys uri → Uses (Labels.names doc.tree.root) uri := by
    rintro uri ⟨key, hkey, part, hsplit⟩
    exact ⟨key, Labels.mem_names.mpr ⟨n, hn, .inr hkey⟩, part, hsplit⟩
  have hdeclared : Element.Prefixing doc.prefixes :=
    fun hvalue => (hdoc.prefixes _ (Entries.mem_of_value? hvalue)).simple
  have hlabelled : Element.Prefixing table := by
    intro uri label hvalue
    rw [htable] at hvalue
    exact (Labels.binds_of_mem h.proper hlabels (Entries.mem_of_value? hvalue)).simple
  constructor
  · intro hsame uri huses
    rcases h.label_cases hdoc (hused huses) with ⟨rfl, hnone⟩ | ⟨hne, label, hlabel⟩
    · -- the document would name the attribute with `xml`, which is no label
      refine .inl ⟨rfl, ?_⟩
      by_contra hsome
      obtain ⟨label, hvalue⟩ := Option.ne_none_iff_exists'.mp hsome
      obtain ⟨uri', hvalue'⟩ := hsame.symm.value? hkeys hdeclared hlabelled huses hvalue
      rw [htable] at hvalue'
      have hbinds := hdoc.prefixes _ (Entries.mem_of_value? hvalue)
      exact (hlabels.chosen _ (Entries.mem_of_value? hvalue')).ne_xml (hbinds.xml_iff.mpr rfl)
    · -- the document names some attribute with the label, so it declares the label
      have hvalue : table.value? uri = some label := by rw [htable, hlabel]
      obtain ⟨uri', hvalue'⟩ := hsame.value? hkeys hlabelled hdeclared huses hvalue
      exact .inr ⟨hne, label,
        h.retained_of_label hdoc hregister hlabel (Entries.mem_of_value? hvalue')⟩
  · intro hretains
    refine Element.sameAttributes_of_value? hkeys hlabelled fun uri huses => ?_
    rw [htable, h.value?_of_retains hdoc hregister (hused huses) (hretains uri huses)]

end WrittenWith

/-! ## Whole documents -/

/-- Nothing about a document is lost where it is written and read again. -/
structure Lossless (doc : Document) : Prop where
  legal : doc.tree.root.Inside Node.Legal
  returns : '\r' ∉ doc.tree.root.innerText
  prefixes : ∀ n, doc.tree.root.Encloses n → ∀ uri, Uses n.attributes.keys uri → doc.Retains uri

theorem Spelled.alike_iff_lossless (hdoc : doc.Spelled) (hregistry : Registry.Proper registry)
    (hwrite : (doc.write registry).2 = .ok written) :
    (∃ source el, Xml.Source.ofMarkup written = .ok source ∧ source.element = .ok el ∧
      doc.element = .ok el) ↔ doc.Lossless := by
  obtain ⟨registered, labels, hregister, hwritten⟩ := writtenWith_of_write hdoc hregistry hwrite
  obtain ⟨hlabels, -⟩ := hwritten.labels_proper hdoc
  have hsame : ∀ n, doc.tree.root.Encloses n →
      (Element.SameAttributes (Xml.Source.prefixes
        { root := doc.tree.root.normalized, bindings := labels.declarations }) doc.prefixes n ↔
        ∀ uri, Uses n.attributes.keys uri → doc.Retains uri) := fun n hn =>
    hwritten.sameAttributes_iff hdoc hregister
      (fun uri => value?_prefixes_reread hwritten.proper hlabels) hn
  constructor
  · rintro ⟨source, el, hsource, hel, hel'⟩
    have hlegal := hwritten.inside_legal hdoc hsource
    rw [hwritten.reread hdoc hlegal] at hsource
    cases hsource
    obtain ⟨hreturns, hinside⟩ := Element.alike_normalized_iff.mp ⟨el, hel, hel'⟩
    exact ⟨hlegal, hreturns, fun n hn => (hsame n hn).mp (hinside n hn)⟩
  · intro hlossless
    obtain ⟨el, hel, hel'⟩ := Element.alike_normalized_iff.mpr
      ⟨hlossless.returns, fun n hn => (hsame n hn).mpr (hlossless.prefixes n hn)⟩
    exact ⟨_, el, hwritten.reread hdoc hlossless.legal, hel, hel'⟩

/-- What is written for a document that was read and patched is read as its snapshot exactly if
nothing about it is lost. -/
theorem snapshot_iff (hread : Document.ofText text = .ok start) (hpatched : start.Patched doc)
    (hregistry : Registry.Reached registry) (hwrite : (doc.write registry).2 = .ok written) :
    (∃ source el, Xml.Source.ofMarkup written = .ok source ∧ source.element = .ok el ∧
      doc.element = .ok el) ↔ doc.Lossless :=
  (hpatched.spelled (spelled_of_ofText hread)).alike_iff_lossless hregistry.proper hwrite

/-! ## A prefix that is bound once, and one that is bound anew -/

/-- The prefix `on` stands for one namespace. -/
def boundOnce : String :=
  boxed [("xmlns:on", "urn:a"), ("id", "x"), ("on:scene-start", "go()")]
    [("id", "b"), ("on:click", "x()")]

def boundOnceDocument : Document :=
  boxDocument "vml" [("id", "x"), (Xml.expand "urn:a" "scene-start", "go()")]
    "box" [("id", "b"), (Xml.expand "urn:a" "click", "x()")] [("urn:a", "on")]

theorem ofText_boundOnce : Document.ofText boundOnce = .ok boundOnceDocument := by
  exact ofText_boxed (by decide +kernel) (by decide +kernel) (by decide +kernel) rfl rfl rfl rfl
    rfl rfl rfl

/-- The document with one more attribute. -/
def boundOncePatched : Document :=
  boxDocument "vml" [("id", "x"), (Xml.expand "urn:a" "scene-start", "go()")]
    "box" [("id", "b"), (Xml.expand "urn:a" "click", "x()"), (Xml.expand "urn:a" "tick", "t()")]
    [("urn:a", "on")]

theorem lossless_boundOncePatched : boundOncePatched.Lossless := by
  have hlegal : boundOncePatched.tree.root.preorder.all (fun n => n.text.all Xml.isLegal &&
      n.tail.all Xml.isLegal && List.all n.attributes fun entry => entry.2.toList.all Xml.isLegal) =
      true := by decide +kernel
  have huris : boundOncePatched.tree.root.preorder.all (fun n =>
      (n.attributes.keys.filterMap Xml.namespaceOf?).all (· == "urn:a")) = true := by decide +kernel
  refine ⟨fun n hn => ?_, by decide +kernel, fun n hn uri huses => ?_⟩
  · have hall := List.all_eq_true.mp hlegal n (Node.mem_preorder.mpr hn)
    simp only [Bool.and_eq_true] at hall
    obtain ⟨⟨htext, htail⟩, hvalues⟩ := hall
    exact ⟨Xml.allLegal_iff_all.mpr htext, Xml.allLegal_iff_all.mpr htail, fun entry hentry =>
      Xml.allLegal_iff_all.mpr (List.all_eq_true.mp hvalues entry hentry)⟩
  · have hall := List.all_eq_true.mp huris n (Node.mem_preorder.mpr hn)
    have huri := List.all_eq_true.mp hall uri (Xml.uses_iff_mem_filterMap.mp huses)
    obtain rfl : uri = "urn:a" := eq_of_beq huri
    exact .inr ⟨by decide, "on", [], [], rfl, by simp⟩

theorem patched_boundOnce : boundOnceDocument.Patched boundOncePatched := by
  have hnames : boundOnceDocument.Names (.setAttr "b" ("on" ++ ":" ++ "tick") (some "t()")) :=
    AttributeName.prefixed (List.mem_cons_self : ("urn:a", "on") ∈ [("urn:a", "on")])
      (by decide +kernel)
  have happly : ∃ m, (Patch.setAttr "b" ("on" ++ ":" ++ "tick") (some "t()")).apply true
      boundOnceDocument = .ok (boundOncePatched, m) := ⟨_, rfl⟩
  obtain ⟨m, happly⟩ := happly
  exact .apply .refl hnames happly

/-- Where the prefix is bound once, the snapshot is read again. -/
theorem boundOnce_snapshot :
    ∃ written, Document.ofText boundOnce = .ok boundOnceDocument ∧
      boundOnceDocument.Patched boundOncePatched ∧
      (boundOncePatched.write Registry.wellKnown).2 = .ok written ∧
      ∃ source el, Xml.Source.ofMarkup written = .ok source ∧ source.element = .ok el ∧
        boundOncePatched.element = .ok el := by
  have hdoc := patched_boundOnce.spelled (spelled_of_ofText ofText_boundOnce)
  obtain ⟨written, hwrite⟩ := (hdoc.write_ok_iff_unreserved Registry.wellKnown).mpr
    (by decide +kernel)
  exact ⟨written, ofText_boundOnce, patched_boundOnce, hwrite,
    (snapshot_iff ofText_boundOnce patched_boundOnce .wellKnown hwrite).mpr
      lossless_boundOncePatched⟩

/-- The prefix `on` stands for one namespace outside and for another one inside. -/
def boundAnew : String :=
  boxed [("xmlns:on", "urn:a"), ("id", "x"), ("on:scene-start", "go()")]
    [("id", "b"), ("xmlns:on", "urn:b"), ("on:click", "x()")]

def boundAnewDocument : Document :=
  boxDocument "vml" [("id", "x"), (Xml.expand "urn:a" "scene-start", "go()")]
    "box" [("id", "b"), (Xml.expand "urn:b" "click", "x()")] [("urn:a", "on"), ("urn:b", "on")]

theorem ofText_boundAnew : Document.ofText boundAnew = .ok boundAnewDocument := by
  exact ofText_boxed (by decide +kernel) (by decide +kernel) (by decide +kernel) rfl rfl rfl rfl
    rfl rfl rfl

/-- What is written for it names the outer attribute differently. -/
theorem boundAnew_renamed :
    ∃ written, Document.ofText boundAnew = .ok boundAnewDocument ∧
      (boundAnewDocument.write Registry.wellKnown).2 = .ok written ∧
      ¬ ∃ source el, Xml.Source.ofMarkup written = .ok source ∧ source.element = .ok el ∧
        boundAnewDocument.element = .ok el := by
  have hdoc := spelled_of_ofText ofText_boundAnew
  obtain ⟨written, hwrite⟩ := (hdoc.write_ok_iff_unreserved Registry.wellKnown).mpr
    (by decide +kernel)
  refine ⟨written, ofText_boundAnew, hwrite, fun hsame => ?_⟩
  have hlossless := (hdoc.alike_iff_lossless Registry.proper_wellKnown hwrite).mp hsame
  have huses : Uses ["id", Xml.expand "urn:a" "scene-start"] "urn:a" :=
    ⟨_, List.mem_cons_of_mem _ List.mem_cons_self, "scene-start", rfl⟩
  rcases hlossless.prefixes _ (.self _) "urn:a" huses with ⟨hxml, -⟩ | ⟨-, label, hretained⟩
  · exact absurd hxml (by decide)
  · -- the prefix that `urn:a` has is bound once more, to `urn:b`
    rcases Xml.retained_cons_iff.mp hretained with hlater | ⟨heq, hback⟩
    · have hmem := hlater.mem
      simp at hmem
    · cases heq
      exact (hback ("urn:b", "on") List.mem_cons_self).2 rfl

end Document

end Cuesheet
