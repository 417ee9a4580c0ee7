import Cuesheet.Proofs.Xml.Labels
import Cuesheet.Proofs.Xml.Settled

/-!
# Attributes that can be spelled

A name can be given to an attribute without breaking the text around it if it is `Assignable`, and
trees of such names are settled (`settled_written`). Their tags are read exactly if each attribute
is `Attributable`: it has a name that markup can spell, or a prefix that the tag binds to a namespace
in which it has no such attribute already (`attributable_of_tagged`, `tagged_of_attributable`).
-/

namespace Cuesheet.Xml

/-- A name that stays in one piece where it is written for an attribute, and declares no prefix. -/
inductive Assignable : String → Prop
  | plain {name : String} (hwhole : Whole name.toList)
      (hunbinding : Scope.boundPrefix? name = none) : Assignable name
  | within {uri part : String} (huri : Bindable uri) (hpart : Whole part.toList) :
      Assignable (expand uri part)

/-- The attributes of a node have assignable names. -/
structure Node.Assigned (node : Node) : Prop where
  name : Xml.Proper node.name
  keys : ∀ key ∈ node.attributes.keys, Assignable key
  nodup : node.attributes.keys.Nodup

theorem splitExpanded_whole {name : String} (h : Whole name.toList) :
    splitExpanded name = .ok (none, name) := by
  have hbrace : '\x7b' ∉ name.toList := h _ (by decide)
  rw [splitExpanded]
  split
  · rename_i hcons
    rw [hcons] at hbrace
    exact absurd List.mem_cons_self hbrace
  · rfl

theorem boundPrefix?_simple {name : String} (h : isSimpleName name.toList = true)
    (hne : name ≠ "xmlns") : Scope.boundPrefix? name = none := by
  rw [Scope.boundPrefix?, Scope.splitName_simple h]
  simp [hne]

theorem boundPrefix?_prefixed {label part : String} (h : isSimpleName label.toList = true)
    (hne : label ≠ "xmlns") : Scope.boundPrefix? (label ++ ":" ++ part) = none := by
  rw [Scope.boundPrefix?, Scope.splitName_prefixed h]
  simp [hne]

theorem Assignable.of_proper {name : String} (h : Proper name) (hne : name ≠ "xmlns") :
    Assignable name := by
  cases h with
  | simple hpart => exact .plain (whole_of_isSimpleName hpart) (boundPrefix?_simple hpart hne)
  | within huri hpart => exact .within huri (whole_of_isSimpleName hpart)

theorem Assignable.bindable {name uri part : String} (h : Assignable name)
    (hsplit : splitExpanded name = .ok (some uri, part)) : Bindable uri := by
  cases h with
  | plain hwhole => rw [splitExpanded_whole hwhole] at hsplit; cases hsplit
  | within huri hpart =>
      rw [splitExpanded_expand _ (hpart _ (by decide))] at hsplit
      cases hsplit
      exact huri

theorem expand_ne_prefixed {uri part label part' : String}
    (h : isSimpleName label.toList = true) : expand uri part ≠ label ++ ":" ++ part' := by
  intro heq
  have hlist := congrArg String.toList heq
  obtain ⟨c, rest, hlabel, hc, -⟩ := exists_cons_of_isSimpleName h
  rw [toList_expand] at hlist
  simp [hlabel] at hlist
  exact ne_of_isNameStart hc (isNameStart_mark (by decide)) hlist.1.symm

/-- The parts of a name with a prefix. -/
theorem simple_of_isQualified_prefixed {label part : String}
    (hlabel : isSimpleName label.toList = true)
    (h : IsQualified (label ++ ":" ++ part).toList) : isSimpleName part.toList = true := by
  have hlist : (label ++ ":" ++ part).toList = label.toList ++ ':' :: part.toList := by simp
  rw [hlist] at h
  rcases h with h | ⟨label', part', heq, hlabel', hpart'⟩
  · exact absurd (by simp) (colon_notMem h)
  · have hsplit := splitAtFirst_of_notMem (colon_notMem hlabel) part.toList
    rw [heq, splitAtFirst_of_notMem (colon_notMem hlabel')] at hsplit
    cases hsplit
    exact hpart'

/-- A qualified name is simple or has a prefix. -/
theorem IsQualified.cases {name : String} (h : IsQualified name.toList) :
    isSimpleName name.toList = true ∨ ∃ label part : String, name = label ++ ":" ++ part ∧
      isSimpleName label.toList = true ∧ isSimpleName part.toList = true := by
  rcases h with h | ⟨label, part, heq, hlabel, hpart⟩
  · exact .inl h
  · refine .inr ⟨String.ofList label, String.ofList part, ?_, by simpa using hlabel,
      by simpa using hpart⟩
    rw [← String.toList_inj, heq]
    simp

namespace Labels

variable {registry : Registry} {labels : Labels} {uri label part : String}

/-- What a prefix stands for where a written tree is read. -/
def Binds (labels : Labels) (uri label : String) : Prop :=
  (uri, label) ∈ labels ∨ uri = xmlUri ∧ label = "xml"

theorem uri?_scope_iff (h : Proper registry labels) (hlabel : isSimpleName label.toList = true) :
    labels.scope.uri? label = some uri ↔ labels.Binds uri label := by
  constructor
  · intro hvalue
    obtain ⟨entry, hfind, rfl⟩ := Option.map_eq_some_iff.mp hvalue
    have hfound := List.find?_some hfind
    have hkey : entry.1 = label := eq_of_beq hfound
    rcases List.mem_append.mp (List.mem_of_find?_eq_some hfind) with hmem | hmem
    · exact .inl (hkey ▸ mem_declarations.mp (List.mem_reverse.mp hmem))
    · rw [List.mem_singleton.mp hmem] at hkey ⊢
      exact .inr ⟨rfl, hkey.symm⟩
  · rintro (hmem | ⟨rfl, rfl⟩)
    · exact uri?_scope h hmem
    · rw [uri?_scope_of_notMem fun entry hentry => (h.chosen _ hentry).ne_xml]
      rfl

theorem prefixOf_of_binds (hregistry : Registry.Proper registry) (h : Proper registry labels)
    (hbinds : labels.Binds uri label) : labels.prefixOf registry uri = label := by
  rcases hbinds with hmem | ⟨rfl, rfl⟩
  · exact prefixOf_of_mem h hmem
  · rw [prefixOf_of_notMem (xmlUri_notMem hregistry h),
      hregistry.value?_eq_some_iff.mpr hregistry.xml, Option.getD_some]

theorem written_whole {name : String} (h : Whole name.toList) :
    labels.written registry name = name := by
  rw [written, splitExpanded_whole h]

end Labels

/-! ## What is written for assignable names -/

variable {registry : Registry} {labels : Labels} {root node : Node}

/-- What is written for a name in a namespace that the document uses. -/
theorem attribute_within (hregistry : Registry.Proper registry)
    (hlabels : Labels.Proper registry labels)
    (hcovers : Labels.Covers labels (Labels.names root)) (hinside : root.Encloses node)
    {uri part : String} (hkey : expand uri part ∈ node.attributes.keys)
    (hpart : Whole part.toList) :
    ∃ label, labels.written registry (expand uri part) = label ++ ":" ++ part ∧
      isSimpleName label.toList = true ∧ label ≠ "xmlns" ∧
      labels.scope.attributeName (label ++ ":" ++ part) = .ok (expand uri part) := by
  have hbrace := hpart '\x7d' (by decide)
  have huses : Uses (Labels.names root) uri :=
    ⟨_, Labels.mem_names.mpr ⟨node, hinside, .inr hkey⟩, part, splitExpanded_expand uri hbrace⟩
  obtain ⟨hsimple, hunreserved, hmeans⟩ := prefixOf_means hregistry hlabels hcovers huses
  refine ⟨_, Labels.written_expand hbrace hsimple, hsimple, hunreserved, ?_⟩
  rw [Scope.attributeName, Scope.splitName_prefixed hsimple]
  dsimp only
  rw [hmeans]

theorem attributeName_prefixed {scope : Scope} {label part : String}
    (hlabel : isSimpleName label.toList = true) {name : String}
    (h : scope.attributeName (label ++ ":" ++ part) = .ok name) :
    ∃ uri, scope.uri? label = some uri ∧ name = expand uri part := by
  rw [Scope.attributeName, Scope.splitName_prefixed hlabel] at h
  dsimp only at h
  split at h
  · cases h
  · rename_i uri huri
    cases h
    exact ⟨uri, huri, rfl⟩

theorem attributeName_simple {scope : Scope} {name : String}
    (h : isSimpleName name.toList = true) : scope.attributeName name = .ok name := by
  rw [Scope.attributeName, Scope.splitName_simple h]

/-- A qualified name that means something is written for what it means. -/
theorem written_of_attributeName (hregistry : Registry.Proper registry)
    (hlabels : Labels.Proper registry labels) {key name : String} (h : IsQualified key.toList)
    (hname : labels.scope.attributeName key = .ok name) : labels.written registry name = key := by
  rcases h.cases with hsimple | ⟨label, part, rfl, hlabel, hpart⟩
  · rw [attributeName_simple hsimple] at hname
    cases hname
    exact Labels.written_simple hsimple
  · obtain ⟨uri, huri, rfl⟩ := attributeName_prefixed hlabel hname
    have hlabelled := Labels.prefixOf_of_binds hregistry hlabels
      ((Labels.uri?_scope_iff hlabels hlabel).mp huri)
    rw [Labels.written_expand (brace_notMem hpart) (by rwa [hlabelled]), hlabelled]

/-- A tree whose attributes have assignable names is settled, wherever labels are bound. -/
theorem settled_written (hregistry : Registry.Proper registry)
    (hlabels : Labels.Proper registry labels)
    (hcovers : Labels.Covers labels (Labels.names root)) (hnode : node.Assigned)
    (hinside : root.Encloses node) : Settled (labels.written registry) labels.scope node := by
  obtain ⟨hname, hmeansName⟩ := elementName_written hregistry hlabels hcovers hnode.name
    (Labels.mem_names.mpr ⟨node, hinside, .inl rfl⟩)
  refine ⟨⟨hname, fun key hkey => ?_, fun key hkey => ?_⟩, hmeansName, ?_⟩
  · cases hnode.keys key hkey with
    | plain hwhole _ => rwa [Labels.written_whole hwhole]
    | within huri hpart =>
        obtain ⟨label, hwritten, hlabel, -⟩ :=
          attribute_within hregistry hlabels hcovers hinside hkey hpart
        rw [hwritten]
        simpa using Whole.prefixed hlabel hpart
  · cases hnode.keys key hkey with
    | plain hwhole hunbinding => rwa [Labels.written_whole hwhole]
    | within huri hpart =>
        obtain ⟨label, hwritten, hlabel, hne, -⟩ :=
          attribute_within hregistry hlabels hcovers hinside hkey hpart
        rw [hwritten, boundPrefix?_prefixed hlabel hne]
  · intro key _ hqualified name hmeans
    exact written_of_attributeName hregistry hlabels hqualified hmeans

/-! ## Attributes in one tag -/

/-- An attribute can stand in a tag with others: its name is spelled by the labels, or it has a
prefix that is bound, to a namespace in which the tag has no attribute of that name. -/
inductive Attributable (labels : Labels) (keys : List String) : String → Prop
  | proper {key : String} (hkey : Proper key) (hbinds : key ≠ "xmlns") : Attributable labels keys key
  | prefixed {uri label part : String} (hlabel : isSimpleName label.toList = true)
      (hpart : isSimpleName part.toList = true) (hbinds : labels.Binds uri label)
      (hfree : expand uri part ∉ keys) : Attributable labels keys (label ++ ":" ++ part)

/-- A name with a prefix is attributable where the prefix is bound, and the tag has no attribute
that means the same. -/
theorem attributable_prefixed_iff {keys : List String} {label part : String}
    (hlabel : isSimpleName label.toList = true) (hpart : isSimpleName part.toList = true) :
    Attributable labels keys (label ++ ":" ++ part) ↔
      ∃ uri, labels.Binds uri label ∧ expand uri part ∉ keys := by
  constructor
  · generalize hname : label ++ ":" ++ part = name
    rintro (⟨hkey, -⟩ | ⟨hlabel', hpart', hbinds, hfree⟩)
    · cases hkey with
      | simple hsimple =>
          rw [← hname] at hsimple
          exact absurd (by simp) (colon_notMem hsimple)
      | within huri hpart' => exact absurd hname.symm (expand_ne_prefixed hlabel)
    · have hsplit := Scope.splitName_prefixed hlabel part
      rw [hname, Scope.splitName_prefixed hlabel'] at hsplit
      cases hsplit
      exact ⟨_, hbinds, hfree⟩
  · rintro ⟨uri, hbinds, hfree⟩
    exact .prefixed hlabel hpart hbinds hfree

theorem Attributable.bindable {keys : List String} {key uri part : String}
    (h : Attributable labels keys key) (hsplit : splitExpanded key = .ok (some uri, part)) :
    Bindable uri := by
  cases h with
  | proper hkey _ => exact Labels.bindable_of_splitExpanded hkey hsplit
  | @prefixed _ label part' hlabel hpart _ _ =>
      have hqualified : IsQualified (label ++ ":" ++ part').toList :=
        .inr ⟨label.toList, part'.toList, by simp, hlabel, hpart⟩
      rw [splitExpanded_whole hqualified.whole] at hsplit
      cases hsplit

theorem Attributable.assignable (hregistry : Registry.Proper registry)
    (hlabels : Labels.Proper registry labels) {keys : List String} {key : String}
    (h : Attributable labels keys key) : Assignable key := by
  cases h with
  | proper hkey hbinds => exact .of_proper hkey hbinds
  | @prefixed uri label part hlabel hpart hbound _ =>
      have hqualified : IsQualified (label ++ ":" ++ part).toList :=
        .inr ⟨label.toList, part.toList, by simp, hlabel, hpart⟩
      have hne : label ≠ "xmlns" := by
        rcases hbound with hmem | ⟨-, rfl⟩
        · exact (Labels.binds_of_mem hregistry hlabels hmem).unreserved
        · decide
      exact .plain hqualified.whole (boundPrefix?_prefixed hlabel hne)

/-- The attributes of a tag that is read are attributable. -/
theorem attributable_of_tagged (hregistry : Registry.Proper registry)
    (hlabels : Labels.Proper registry labels)
    (hcovers : Labels.Covers labels (Labels.names root)) (hnode : node.Assigned)
    (hinside : root.Encloses node) (htag : Tagged (labels.written registry) labels.scope node)
    {key : String} (hkey : key ∈ node.attributes.keys) :
    Attributable labels node.attributes.keys key := by
  have hqualified := htag.keys key hkey
  cases hnode.keys key hkey with
  | @within uri part huri hpart =>
      obtain ⟨label, hwritten, hlabel, -⟩ :=
        attribute_within hregistry hlabels hcovers hinside hkey hpart
      rw [hwritten] at hqualified
      have hsimple := simple_of_isQualified_prefixed hlabel hqualified
      exact .proper (.within huri hsimple) (expand_ne_simple isSimpleName_xmlns)
  | plain hwhole hunbinding =>
      rw [Labels.written_whole hwhole] at hqualified
      rcases hqualified.cases with hsimple | ⟨label, part, rfl, hlabel, hpart⟩
      · refine .proper (.simple hsimple) ?_
        rintro rfl
        cases hunbinding
      · obtain ⟨name, hmeans⟩ := htag.bound _ hkey
        rw [Labels.written_whole hwhole] at hmeans
        obtain ⟨uri, huri, rfl⟩ := attributeName_prefixed hlabel hmeans
        refine .prefixed hlabel hpart ((Labels.uri?_scope_iff hlabels hlabel).mp huri) ?_
        intro hother
        -- both are written alike
        have hsame := written_of_attributeName hregistry hlabels hqualified hmeans
        have heq := List.inj_on_of_nodup_map htag.distinct hother hkey
          (by rw [hsame, Labels.written_whole hwhole])
        exact expand_ne_prefixed hlabel heq

/-- What an attributable name means is the name, or no name of an attribute of the tag. -/
theorem Attributable.means (hregistry : Registry.Proper registry)
    (hlabels : Labels.Proper registry labels)
    (hcovers : Labels.Covers labels (Labels.names root)) (hinside : root.Encloses node)
    {key : String} (hkey : key ∈ node.attributes.keys)
    (h : Attributable labels node.attributes.keys key) :
    IsQualified (labels.written registry key).toList ∧
      ∃ name, labels.scope.attributeName (labels.written registry key) = .ok name ∧
        (name = key ∨ name ∉ node.attributes.keys ∧ key = labels.written registry name) := by
  cases h with
  | proper hproper hbinds =>
      obtain ⟨hqualified, -, hmeans⟩ := attributeName_written hregistry hlabels hcovers hproper
        hbinds (Labels.mem_names.mpr ⟨node, hinside, .inr hkey⟩)
      exact ⟨hqualified, key, hmeans, .inl rfl⟩
  | @prefixed uri label part hlabel hpart hbinds hfree =>
      have hqualified : IsQualified (label ++ ":" ++ part).toList :=
        .inr ⟨label.toList, part.toList, by simp, hlabel, hpart⟩
      have hmeans : labels.scope.attributeName (label ++ ":" ++ part) = .ok (expand uri part) := by
        rw [Scope.attributeName, Scope.splitName_prefixed hlabel]
        dsimp only
        rw [(Labels.uri?_scope_iff hlabels hlabel).mpr hbinds]
      rw [Labels.written_whole hqualified.whole]
      exact ⟨hqualified, _, hmeans, .inr ⟨hfree,
        (written_of_attributeName hregistry hlabels hqualified hmeans).symm⟩⟩

/-- Attributable attributes make a tag that is read. -/
theorem tagged_of_attributable (hregistry : Registry.Proper registry)
    (hlabels : Labels.Proper registry labels)
    (hcovers : Labels.Covers labels (Labels.names root)) (hnodup : node.attributes.keys.Nodup)
    (hinside : root.Encloses node)
    (h : ∀ key ∈ node.attributes.keys, Attributable labels node.attributes.keys key) :
    Tagged (labels.written registry) labels.scope node := by
  have hmeans := fun key hkey => (h key hkey).means hregistry hlabels hcovers hinside hkey
  refine ⟨fun key hkey => (hmeans key hkey).1, fun key hkey => ?_, ?_⟩
  · obtain ⟨-, name, hname, -⟩ := hmeans key hkey
    exact ⟨name, hname⟩
  · refine hnodup.map_on fun key hkey key' hkey' heq => ?_
    obtain ⟨-, name, hname, hcase⟩ := hmeans key hkey
    obtain ⟨-, name', hname', hcase'⟩ := hmeans key' hkey'
    rw [hname, hname'] at heq
    cases heq
    rcases hcase with rfl | ⟨hother, hwritten⟩
    · rcases hcase' with rfl | ⟨hother', -⟩
      · rfl
      · exact absurd hkey hother'
    · rcases hcase' with rfl | ⟨-, hwritten'⟩
      · exact absurd hkey' hother
      · exact hwritten.trans hwritten'.symm

end Cuesheet.Xml
