import Cuesheet.Proofs.Document.Around
import Cuesheet.Proofs.Number.Digits
import Cuesheet.Proofs.Xml.Registering
import Cuesheet.Proofs.Xml.Tags

/-!
# The prefixes of a written document

While the names of a tree are met, a prefix is chosen for every namespace in it. The choice is
`Proper`: no prefix stands for two namespaces, each is the registered one or numbered, and none is
`xml` (`proper_of_ofTree`). So the names that are written for the tree mean its names again where
the declarations on its root hold (`legible_written`).
-/

namespace Cuesheet.Xml

/-- The prefix of a namespace that has none registered. -/
def numbered (n : Nat) : String := "ns" ++ Number.intText n

theorem toList_numbered (n : Nat) : (numbered n).toList = 'n' :: 's' :: Number.natChars n := by
  simp [numbered, Number.toList_intText]

theorem numbered_inj {m n : Nat} (h : numbered m = numbered n) : m = n := by
  have hlist := congrArg String.toList h
  simp only [toList_numbered, List.cons.injEq, true_and] at hlist
  exact Number.natChars_inj hlist

theorem isReserved_numbered (n : Nat) : Registry.isReserved (numbered n) = true := by
  have hdecimal : (Number.natChars n).all Text.isDecimal = true := by
    rw [List.all_eq_true]
    intro c hc
    obtain ⟨d, hd, rfl⟩ := Number.exists_digit_of_mem_natChars hc
    interval_cases d <;> decide
  simp [Registry.isReserved, toList_numbered, hdecimal, Number.natChars_ne_nil]

theorem isSimpleName_numbered (n : Nat) : isSimpleName (numbered n).toList = true := by
  rw [toList_numbered, isSimpleName_cons]
  refine ⟨by decide +kernel, List.forall_mem_cons.mpr ⟨by decide +kernel, fun c hc => ?_⟩⟩
  obtain ⟨d, hd, rfl⟩ := Number.exists_digit_of_mem_natChars hc
  interval_cases d <;> decide +kernel

theorem numbered_ne_of_head {n : Nat} {label : String} {c : Char} {rest : List Char}
    (hlabel : label.toList = c :: rest) (hc : c ≠ 'n') : numbered n ≠ label := by
  rintro rfl
  rw [toList_numbered] at hlabel
  exact hc (List.cons.inj hlabel).1.symm

/-- Some of the names are in a namespace. -/
def Uses (names : List String) (uri : String) : Prop :=
  ∃ name ∈ names, ∃ part, splitExpanded name = .ok (some uri, part)

/-- The namespace of a name, where it has one. -/
def namespaceOf? (name : String) : Option String :=
  match splitExpanded name with
  | .ok (uri?, _) => uri?
  | .error _ => none

theorem uses_iff_mem_filterMap {names : List String} {uri : String} :
    Uses names uri ↔ uri ∈ names.filterMap namespaceOf? := by
  rw [List.mem_filterMap]
  refine exists_congr fun name => and_congr_right fun _ => ?_
  unfold namespaceOf?
  cases splitExpanded name with
  | error fault => simp
  | ok found => simp [Prod.ext_iff]

theorem uses_cons_iff {name : String} {names : List String} {uri : String} :
    Uses (name :: names) uri ↔
      (∃ part, splitExpanded name = .ok (some uri, part)) ∨ Uses names uri := by
  simp [Uses]

namespace Labels

variable {registry : Registry} {labels labels' : Labels} {name uri label : String}
  {names : List String}

/-! ## Choosing prefixes -/

/-- How the prefix of a namespace was chosen. -/
def Chosen (registry : Registry) (count : Nat) (uri label : String) : Prop :=
  (registry.value? uri = some label ∧ label ≠ "xml") ∨
    (registry.value? uri = none ∧ ∃ n < count, label = numbered n)

structure Proper (registry : Registry) (labels : Labels) : Prop where
  uris : (List.map (·.1) labels).Nodup
  prefixes : (List.map (·.2) labels).Nodup
  bindable : ∀ entry ∈ labels, Bindable entry.1
  chosen : ∀ entry ∈ labels, Chosen registry labels.length entry.1 entry.2

theorem Chosen.ne_xml {count : Nat} (h : Chosen registry count uri label) : label ≠ "xml" := by
  rcases h with ⟨-, hne⟩ | ⟨-, n, -, rfl⟩
  · exact hne
  · exact numbered_ne_of_head rfl (by decide)

theorem Chosen.mono {count count' : Nat} (h : Chosen registry count uri label)
    (hle : count ≤ count') : Chosen registry count' uri label := by
  rcases h with hregistered | ⟨hnone, n, hn, hlabel⟩
  · exact .inl hregistered
  · exact .inr ⟨hnone, n, by omega, hlabel⟩

theorem proper_nil (registry : Registry) : Proper registry [] :=
  ⟨List.nodup_nil, List.nodup_nil, nofun, nofun⟩

theorem prefixOf_of_mem (h : Proper registry labels) (hmem : (uri, label) ∈ labels) :
    prefixOf registry labels uri = label := by
  rw [prefixOf, (Entries.value?_eq_some_iff h.uris).mpr hmem]

/-- The prefix for a namespace that was not met before. -/
theorem prefixOf_of_notMem (h : uri ∉ List.map (·.1) labels) :
    prefixOf registry labels uri = (registry.value? uri).getD (numbered labels.length) := by
  have hnone : labels.value? uri = none := Entries.value?_eq_none_iff.mpr h
  rw [prefixOf, hnone]
  dsimp only
  cases registry.value? uri with
  | none => rfl
  | some label => rfl

/-- What meeting a name does: nothing, or it adds the namespace of the name. -/
theorem meet_cases (h : Proper registry labels)
    (hmeet : meet registry labels name = .ok labels') :
    labels' = labels ∧ (∀ uri part, splitExpanded name = .ok (some uri, part) →
        registry.value? uri = some "xml" ∨ uri ∈ List.map (·.1) labels) ∨
      ∃ uri part, splitExpanded name = .ok (some uri, part) ∧ uri ∉ List.map (·.1) labels ∧
        prefixOf registry labels uri ≠ "xml" ∧
        labels' = labels ++ [(uri, prefixOf registry labels uri)] := by
  rw [meet] at hmeet
  split at hmeet
  · cases hmeet
  · rename_i part hsplit
    cases hmeet
    exact .inl ⟨rfl, fun uri part hname => by rw [hsplit] at hname; cases hname⟩
  · rename_i uri part hsplit
    cases hmeet
    by_cases hmem : uri ∈ List.map (·.1) labels
    · obtain ⟨⟨uri', label⟩, hentry, rfl⟩ := List.mem_map.mp hmem
      have hsame := prefixOf_of_mem h hentry
      have hvalue := (Entries.value?_eq_some_iff h.uris).mpr hentry
      have hne := (h.chosen _ hentry).ne_xml
      refine .inl ⟨?_, fun uri part hname => .inr ?_⟩
      · simp only [hsame, beq_iff_eq, hne, if_false]
        exact Entries.put_of_value? hvalue
      · rw [hsplit] at hname
        cases hname
        exact hmem
    · by_cases hxml : prefixOf registry labels uri = "xml"
      · refine .inl ⟨by simp [hxml], fun uri' part' hname => .inl ?_⟩
        rw [hsplit] at hname
        cases hname
        rw [prefixOf_of_notMem hmem] at hxml
        cases hregistered : registry.value? uri with
        | none =>
            rw [hregistered] at hxml
            exact absurd hxml (numbered_ne_of_head rfl (by decide))
        | some label =>
            rw [hregistered] at hxml
            exact congrArg some hxml
      · refine .inr ⟨uri, part, hsplit, hmem, hxml, ?_⟩
        simp only [beq_iff_eq, hxml, if_false]
        exact Entries.put_of_notMem hmem

theorem chosen_prefixOf (hmem : uri ∉ List.map (·.1) labels)
    (hxml : prefixOf registry labels uri ≠ "xml") :
    Chosen registry (labels.length + 1) uri (prefixOf registry labels uri) := by
  rw [prefixOf_of_notMem hmem] at hxml ⊢
  cases hregistered : registry.value? uri with
  | none => exact .inr ⟨hregistered, labels.length, by omega, rfl⟩
  | some label =>
      rw [hregistered] at hxml
      exact .inl ⟨hregistered, hxml⟩

/-- Registered prefixes are apart from each other, numbers grow, and no numbered prefix is
registered. So a prefix that is chosen was not chosen before. -/
theorem Proper.prefixOf_notMem (hregistry : Registry.Proper registry) (h : Proper registry labels)
    (hmem : uri ∉ List.map (·.1) labels) (hxml : prefixOf registry labels uri ≠ "xml") :
    prefixOf registry labels uri ∉ List.map (·.2) labels := by
  intro hold
  obtain ⟨⟨uri', label⟩, hentry, hlabel : label = prefixOf registry labels uri⟩ :=
    List.mem_map.mp hold
  have hreserved : ∀ {uri label}, registry.value? uri = some label →
      Registry.isReserved label = false := fun hvalue =>
    hregistry.unreserved _ (Entries.mem_of_value? hvalue)
  have hbefore : Chosen registry labels.length uri' label := h.chosen _ hentry
  rw [← hlabel] at hxml
  rcases hlabel ▸ chosen_prefixOf hmem (hlabel ▸ hxml) with
    ⟨hnow, -⟩ | ⟨hnone, -⟩
  · rcases hbefore with ⟨hvalue, -⟩ | ⟨-, n, -, rfl⟩
    · have heq : uri' = uri := hregistry.eq_of_label (Entries.mem_of_value? hvalue)
        (Entries.mem_of_value? hnow)
      exact hmem (heq ▸ List.mem_map.mpr ⟨_, hentry, rfl⟩)
    · have hnot := hreserved hnow
      rw [isReserved_numbered] at hnot
      cases hnot
  · rw [prefixOf_of_notMem hmem, hnone, Option.getD_none] at hlabel
    rcases hbefore with ⟨hvalue, -⟩ | ⟨-, n, hn, hnumbered⟩
    · have hnot := hreserved hvalue
      rw [hlabel, isReserved_numbered] at hnot
      cases hnot
    · have heq : labels.length = n := numbered_inj (hlabel.symm.trans hnumbered)
      omega

theorem Proper.append (hregistry : Registry.Proper registry) (h : Proper registry labels)
    (huri : Bindable uri) (hmem : uri ∉ List.map (·.1) labels)
    (hxml : prefixOf registry labels uri ≠ "xml") :
    Proper registry (labels ++ [(uri, prefixOf registry labels uri)]) := by
  have hfresh := h.prefixOf_notMem hregistry hmem hxml
  have hentries : ∀ entry ∈ labels ++ [(uri, prefixOf registry labels uri)],
      entry ∈ labels ∨ entry = (uri, prefixOf registry labels uri) := fun entry hentry => by
    simpa using hentry
  refine ⟨?_, ?_, fun entry hentry => ?_, fun entry hentry => ?_⟩
  · rw [List.map_append, List.nodup_append]
    refine ⟨h.uris, List.nodup_singleton _, ?_⟩
    rintro other hother uri' huri' rfl
    rw [List.mem_singleton.mp huri'] at hother
    exact hmem hother
  · rw [List.map_append, List.nodup_append]
    refine ⟨h.prefixes, List.nodup_singleton _, ?_⟩
    rintro other hother label hlabel rfl
    rw [List.mem_singleton.mp hlabel] at hother
    exact hfresh hother
  · rcases hentries entry hentry with hentry | rfl
    · exact h.bindable entry hentry
    · exact huri
  · rw [List.length_append, List.length_singleton]
    rcases hentries entry hentry with hentry | rfl
    · exact (h.chosen entry hentry).mono (Nat.le_succ _)
    · exact chosen_prefixOf hmem hxml

/-! ## All names of a tree -/

/-- What was chosen for some names: for every namespace in them but that of `xml`, and no other. -/
structure Covers (labels : Labels) (names : List String) : Prop where
  all : ∀ uri, Uses names uri → uri = xmlUri ∨ uri ∈ List.map (·.1) labels
  only : ∀ uri ∈ List.map (·.1) labels, Uses names uri

theorem bindable_of_splitExpanded (h : Xml.Proper name) {part : String}
    (hsplit : splitExpanded name = .ok (some uri, part)) : Bindable uri := by
  cases h with
  | simple hpart => rw [splitExpanded_simple hpart] at hsplit; cases hsplit
  | within huri hpart =>
      rw [splitExpanded_expand _ (brace_notMem hpart)] at hsplit
      cases hsplit
      exact huri

theorem bindable_of_uses (h : ∀ name ∈ names, Xml.Proper name) (huses : Uses names uri) :
    Bindable uri := by
  obtain ⟨name, hname, part, hsplit⟩ := huses
  exact bindable_of_splitExpanded (h name hname) hsplit

theorem eq_xmlUri_of_value? (hregistry : Registry.Proper registry)
    (h : registry.value? uri = some "xml") : uri = xmlUri :=
  hregistry.eq_of_label (Entries.mem_of_value? h) hregistry.xml

theorem proper_of_foldlM (hregistry : Registry.Proper registry)
    (hnames : ∀ uri, Uses names uri → Bindable uri) (hlabels : Proper registry labels)
    (h : names.foldlM (meet registry) labels = .ok labels') :
    Proper registry labels' ∧ (∀ entry ∈ labels, entry ∈ labels') ∧
      (∀ uri, Uses names uri → uri = xmlUri ∨ uri ∈ List.map (·.1) labels') ∧
      ∀ uri ∈ List.map (·.1) labels', uri ∈ List.map (·.1) labels ∨ Uses names uri := by
  induction names generalizing labels with
  | nil =>
      cases h
      exact ⟨hlabels, fun _ => id, fun uri huses => by simp [Uses] at huses, fun uri => .inl⟩
  | cons name rest ih =>
      rw [List.foldlM_cons] at h
      have hrest : ∀ uri, Uses rest uri → Bindable uri :=
        fun uri huses => hnames uri (uses_cons_iff.mpr (.inr huses))
      cases hmeet : meet registry labels name with
      | error fault => rw [hmeet] at h; cases h
      | ok next =>
          rw [hmeet] at h
          rcases meet_cases hlabels hmeet with ⟨rfl, hmet⟩ | ⟨uri, part, hsplit, hmem, hxml, rfl⟩
          · obtain ⟨hproper, hkept, hall, honly⟩ := ih hrest hlabels h
            refine ⟨hproper, hkept, fun uri huses => ?_, fun uri huri => ?_⟩
            · rcases uses_cons_iff.mp huses with ⟨part, hsplit⟩ | huses
              · rcases hmet uri part hsplit with hvalue | hmem
                · exact .inl (eq_xmlUri_of_value? hregistry hvalue)
                · obtain ⟨entry, hentry, rfl⟩ := List.mem_map.mp hmem
                  exact .inr (List.mem_map.mpr ⟨entry, hkept entry hentry, rfl⟩)
              · exact hall uri huses
            · rcases honly uri huri with hmem | huses
              · exact .inl hmem
              · exact .inr (uses_cons_iff.mpr (.inr huses))
          · have hbindable := hnames uri (uses_cons_iff.mpr (.inl ⟨part, hsplit⟩))
            have hnext := hlabels.append hregistry hbindable hmem hxml
            obtain ⟨hproper, hkept, hall, honly⟩ := ih hrest hnext h
            refine ⟨hproper, fun entry hentry => ?_, fun uri' huses => ?_, fun uri' huri' => ?_⟩
            · exact hkept entry (List.mem_append_left _ hentry)
            · rcases uses_cons_iff.mp huses with ⟨part', hsplit'⟩ | huses
              · rw [hsplit] at hsplit'
                cases hsplit'
                have hadded := hkept (uri, prefixOf registry labels uri)
                  (List.mem_append_right _ (List.mem_singleton_self _))
                exact .inr (List.mem_map.mpr ⟨_, hadded, rfl⟩)
              · exact hall uri' huses
            · rcases honly uri' huri' with hmem' | huses
              · rw [List.map_append, List.mem_append] at hmem'
                rcases hmem' with hmem' | hmem'
                · exact .inl hmem'
                · rw [List.mem_singleton.mp hmem']
                  exact .inr (uses_cons_iff.mpr (.inl ⟨part, hsplit⟩))
              · exact .inr (uses_cons_iff.mpr (.inr huses))

theorem proper_of_ofTree (hregistry : Registry.Proper registry) {root : Node}
    (hnames : ∀ uri, Uses (Labels.names root) uri → Bindable uri)
    (h : ofTree registry root = .ok labels) :
    Proper registry labels ∧ Covers labels (Labels.names root) := by
  obtain ⟨hproper, -, hall, honly⟩ := proper_of_foldlM hregistry hnames (proper_nil registry) h
  refine ⟨hproper, hall, fun uri huri => ?_⟩
  rcases honly uri huri with hnil | huses
  · cases hnil
  · exact huses

/-! ## Declarations -/

theorem mem_declarations : (label, uri) ∈ labels.declarations ↔ (uri, label) ∈ labels := by
  rw [declarations, List.mem_mergeSort, List.mem_map]
  constructor
  · rintro ⟨entry, hentry, heq⟩
    cases heq
    exact hentry
  · intro hmem
    exact ⟨_, hmem, rfl⟩

theorem nodup_declarations (h : Proper registry labels) :
    (labels.declarations.map (·.1)).Nodup := by
  have hperm := (List.mergeSort_perm (labels.map fun entry => (entry.2, entry.1))
    fun a b => a.1 ≤ b.1).map (·.1)
  rw [List.map_map] at hperm
  exact hperm.nodup_iff.mpr h.prefixes

theorem binds_of_mem (hregistry : Registry.Proper registry) (h : Proper registry labels)
    (hmem : (uri, label) ∈ labels) : Binds uri label := by
  have hchosen : Chosen registry labels.length uri label := h.chosen _ hmem
  have hne := hchosen.ne_xml
  have huri : uri ≠ xmlUri := by
    rintro rfl
    rcases hchosen with ⟨hvalue, -⟩ | ⟨hnone, -⟩
    · rw [hregistry.value?_eq_some_iff.mpr hregistry.xml] at hvalue
      exact hne (Option.some.inj hvalue).symm
    · rw [hregistry.value?_eq_some_iff.mpr hregistry.xml] at hnone
      cases hnone
  have hxml : label = "xml" ↔ uri = xmlUri :=
    ⟨fun heq => absurd heq hne, fun heq => absurd heq huri⟩
  rcases hchosen with ⟨hvalue, -⟩ | ⟨-, n, -, rfl⟩
  · have hbinds := hregistry.binds _ (Entries.mem_of_value? hvalue)
    exact ⟨h.bindable _ hmem, hbinds.simple, hbinds.unreserved, hxml⟩
  · exact ⟨h.bindable _ hmem, isSimpleName_numbered n, numbered_ne_of_head rfl (by decide), hxml⟩

theorem xmlUri_notMem (hregistry : Registry.Proper registry) (h : Proper registry labels) :
    xmlUri ∉ List.map (·.1) labels := by
  intro hmem
  obtain ⟨entry, hentry, huri⟩ := List.mem_map.mp hmem
  have hbinds : Binds entry.1 entry.2 := binds_of_mem hregistry h hentry
  exact (h.chosen _ hentry).ne_xml (hbinds.xml_iff.mpr huri)

theorem declarable (hregistry : Registry.Proper registry) (h : Proper registry labels) :
    Declarable labels.declarations :=
  ⟨fun _ hentry => (binds_of_mem hregistry h (mem_declarations.mp hentry)).simple,
    fun _ hentry => (binds_of_mem hregistry h (mem_declarations.mp hentry)).faultless,
    nodup_declarations h⟩

/-- The scope inside the root of a written document. -/
def scope (labels : Labels) : Scope := labels.declarations.reverse ++ Scope.initial

theorem uri?_scope (h : Proper registry labels) (hmem : (uri, label) ∈ labels) :
    labels.scope.uri? label = some uri := by
  have hkeys : (Entries.keys labels.declarations.reverse).Nodup := by
    rw [Entries.keys, List.map_reverse, List.nodup_reverse]
    exact nodup_declarations h
  have hvalue : Entries.value? labels.declarations.reverse label = some uri :=
    (Entries.value?_eq_some_iff hkeys).mpr (List.mem_reverse.mpr (mem_declarations.mpr hmem))
  obtain ⟨entry, hfind, hentry⟩ := Option.map_eq_some_iff.mp hvalue
  rw [Scope.uri?, scope, List.find?_append, hfind, Option.some_or, Option.map_some, hentry]

theorem uri?_scope_of_notMem (h : ∀ entry ∈ labels, entry.2 ≠ label) :
    labels.scope.uri? label = Scope.initial.uri? label := by
  have hnone : labels.declarations.reverse.find? (fun entry => entry.1 == label) = none := by
    rw [List.find?_eq_none]
    rintro ⟨label', uri⟩ hentry heq
    exact h _ (mem_declarations.mp (List.mem_reverse.mp hentry)) (eq_of_beq heq)
  rw [Scope.uri?, scope, List.find?_append, hnone, Option.none_or, Scope.uri?]

/-! ## Written names -/

theorem written_simple (h : isSimpleName name.toList = true) :
    labels.written registry name = name := by
  rw [written, splitExpanded_simple h]

theorem written_expand {part : String} (h : '\x7d' ∉ part.toList)
    (hlabel : isSimpleName (labels.prefixOf registry uri).toList = true) :
    labels.written registry (expand uri part) =
      labels.prefixOf registry uri ++ ":" ++ part := by
  have hne : (labels.prefixOf registry uri).isEmpty = false := by
    rw [String.isEmpty_eq_false_iff]
    intro heq
    rw [heq] at hlabel
    cases hlabel
  rw [written, splitExpanded_expand _ h]
  simp [hne]

end Labels

/-! ## What written names mean -/

/-- The names of a node are such as markup can spell. -/
structure Node.Proper (node : Node) : Prop where
  name : Xml.Proper node.name
  keys : ∀ key ∈ node.attributes.keys, Xml.Proper key ∧ key ≠ "xmlns"
  nodup : node.attributes.keys.Nodup

theorem Labels.mem_names {root : Node} {name : String} :
    name ∈ Labels.names root ↔
      ∃ n, root.Encloses n ∧ (name = n.name ∨ name ∈ n.attributes.keys) := by
  simp only [names, List.mem_flatMap, Node.mem_preorder, List.mem_cons]

variable {registry : Registry} {labels : Labels} {names : List String} {name uri part : String}

/-- The prefix of a namespace is bound to it inside the root. -/
theorem prefixOf_means (hregistry : Registry.Proper registry)
    (hlabels : Labels.Proper registry labels) (hcovers : Labels.Covers labels names)
    (huses : Uses names uri) :
    isSimpleName (labels.prefixOf registry uri).toList = true ∧
      labels.prefixOf registry uri ≠ "xmlns" ∧
      labels.scope.uri? (labels.prefixOf registry uri) = some uri := by
  rcases hcovers.all uri huses with rfl | hmem
  · rw [Labels.prefixOf_of_notMem (Labels.xmlUri_notMem hregistry hlabels),
      hregistry.value?_eq_some_iff.mpr hregistry.xml, Option.getD_some]
    refine ⟨by decide +kernel, by decide, ?_⟩
    rw [Labels.uri?_scope_of_notMem fun entry hentry => (hlabels.chosen _ hentry).ne_xml]
    rfl
  · obtain ⟨⟨uri, label⟩, hentry, rfl⟩ := List.mem_map.mp hmem
    have hbinds := Labels.binds_of_mem hregistry hlabels hentry
    rw [Labels.prefixOf_of_mem hlabels hentry]
    exact ⟨hbinds.simple, hbinds.unreserved, Labels.uri?_scope hlabels hentry⟩

theorem uri?_default (hregistry : Registry.Proper registry)
    (hlabels : Labels.Proper registry labels) : labels.scope.uri? "" = none := by
  rw [Labels.uri?_scope_of_notMem]
  · rfl
  · rintro ⟨uri, label⟩ hentry rfl
    have hsimple := (Labels.binds_of_mem hregistry hlabels hentry).simple
    cases hsimple

/-- What is written for a name of an element means the name. -/
theorem elementName_written (hregistry : Registry.Proper registry)
    (hlabels : Labels.Proper registry labels) (hcovers : Labels.Covers labels names)
    (hname : Proper name) (hmem : name ∈ names) :
    IsQualified (labels.written registry name).toList ∧
      labels.scope.elementName (labels.written registry name) = .ok name := by
  cases hname with
  | simple hpart =>
      rw [Labels.written_simple hpart, Scope.elementName, Scope.splitName_simple hpart]
      dsimp only
      rw [uri?_default hregistry hlabels]
      exact ⟨.inl hpart, rfl⟩
  | @within uri part huri hpart =>
      have hsplit := splitExpanded_expand uri (brace_notMem hpart)
      obtain ⟨hsimple, -, hmeans⟩ :=
        prefixOf_means hregistry hlabels hcovers ⟨_, hmem, part, hsplit⟩
      rw [Labels.written_expand (brace_notMem hpart) hsimple, Scope.elementName,
        Scope.splitName_prefixed hsimple]
      dsimp only
      rw [hmeans]
      exact ⟨.inr ⟨_, _, by simp, hsimple, hpart⟩, rfl⟩

/-- What is written for a name of an attribute means the name and binds nothing. -/
theorem attributeName_written (hregistry : Registry.Proper registry)
    (hlabels : Labels.Proper registry labels) (hcovers : Labels.Covers labels names)
    (hname : Proper name) (hxmlns : name ≠ "xmlns") (hmem : name ∈ names) :
    IsQualified (labels.written registry name).toList ∧
      Scope.boundPrefix? (labels.written registry name) = none ∧
      labels.scope.attributeName (labels.written registry name) = .ok name := by
  cases hname with
  | simple hpart =>
      rw [Labels.written_simple hpart, Scope.attributeName, Scope.boundPrefix?,
        Scope.splitName_simple hpart]
      exact ⟨.inl hpart, by simp [hxmlns], rfl⟩
  | @within uri part huri hpart =>
      have hsplit := splitExpanded_expand uri (brace_notMem hpart)
      obtain ⟨hsimple, hunreserved, hmeans⟩ :=
        prefixOf_means hregistry hlabels hcovers ⟨_, hmem, part, hsplit⟩
      rw [Labels.written_expand (brace_notMem hpart) hsimple, Scope.attributeName, Scope.boundPrefix?,
        Scope.splitName_prefixed hsimple]
      dsimp only
      rw [hmeans]
      exact ⟨.inr ⟨_, _, by simp, hsimple, hpart⟩, by simp [hunreserved], rfl⟩

theorem legible_written (hregistry : Registry.Proper registry)
    (hlabels : Labels.Proper registry labels) {root node : Node}
    (hcovers : Labels.Covers labels (Labels.names root)) (hnode : node.Proper)
    (hinside : root.Encloses node) :
    Legible (labels.written registry) labels.scope node := by
  have hname := elementName_written hregistry hlabels hcovers hnode.name
    (Labels.mem_names.mpr ⟨node, hinside, .inl rfl⟩)
  have hkeys := fun key hkey => attributeName_written hregistry hlabels hcovers
    (hnode.keys key hkey).1 (hnode.keys key hkey).2
    (Labels.mem_names.mpr ⟨node, hinside, .inr hkey⟩)
  exact ⟨hname.1, hname.2, fun key hkey => (hkeys key hkey).1,
    fun key hkey => (hkeys key hkey).2.1, fun key hkey => (hkeys key hkey).2.2, hnode.nodup⟩

end Cuesheet.Xml
