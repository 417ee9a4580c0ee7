import Cuesheet.Proofs.Document.Snapshot
import Cuesheet.Proofs.Xml.Enclosed
import Cuesheet.Proofs.Xml.Refused

/-!
# Markup of nodes in documents with prefixes

The markup of a node is read inside a root that declares the prefixes of the document anew, each
namespace between the quotes as it is. Where the prefixes are `Redeclarable` that root is read, and
markup that can be read alone is read as the same element in it; elsewhere no markup is
(`fragment_alone_iff`).
-/

namespace Cuesheet

open Xml (Entities Fault Item Node Scope Reads Declarable Binds declarationName normalizeLines
  isSimpleName isNameStart)

namespace Document

variable {prefixes : Entries String String} {declarations : List (String × String)}
  {markup text : String}

/-! ## Declarations made anew -/

/-- The declarations of prefixes, with something between the quotes for every namespace. -/
def redeclarationChars (between : String → List Char) (prefixes : Entries String String) :
    List Char :=
  prefixes.flatMap fun entry =>
    ' ' :: ((declarationName entry.2).toList ++ '=' :: '"' :: (between entry.1 ++ ['"']))

theorem redeclarationChars_cons (between : String → List Char) (entry : String × String)
    (prefixes : Entries String String) (rest : List Char) :
    redeclarationChars between (entry :: prefixes) ++ rest =
      ' ' :: ((declarationName entry.2).toList ++ '=' :: '"' :: (between entry.1 ++
        '"' :: (redeclarationChars between prefixes ++ rest))) := by
  simp [redeclarationChars]

theorem toList_wrapFragment (hlabels : ∀ entry ∈ prefixes, isSimpleName entry.2.toList = true)
    (markup : String) :
    (wrapFragment prefixes markup).toList = '<' :: ("root".toList ++
      (redeclarationChars String.toList prefixes ++
        '>' :: (markup.toList ++ "</root>".toList))) := by
  have hdeclarations : (String.join (List.map
      (fun entry => " xmlns:" ++ entry.2 ++ "=\"" ++ entry.1 ++ "\"") prefixes)).toList =
        redeclarationChars String.toList prefixes := by
    rw [String.toList_join, List.flatMap_map]
    refine List.flatMap_congr fun entry hentry => ?_
    simp [Xml.declarationName_eq (hlabels entry hentry)]
  rw [wrapFragment]
  simp only [String.toList_append, hdeclarations]
  simp

/-- What is read for namespaces that are declared anew. -/
inductive ReadAnew : Entries String String → List (String × String) → Prop
  | nil : ReadAnew [] []
  | cons {uri label : String} {value : List Char} {prefixes : Entries String String}
      {declarations : List (String × String)}
      (hvalue : Entities.attributeValue {} (normalizeLines uri.toList) = .ok value)
      (hmore : ReadAnew prefixes declarations) :
      ReadAnew ((uri, label) :: prefixes) ((label, String.ofList value) :: declarations)

/-- Prefixes can be declared anew: what is read for that may stand on a root. -/
def Redeclarable (prefixes : Entries String String) : Prop :=
  ∃ declarations, ReadAnew prefixes declarations ∧ Declarable declarations

theorem ReadAnew.labels (h : ReadAnew prefixes declarations) :
    declarations.map (·.1) = prefixes.map (·.2) := by
  induction h with
  | nil => rfl
  | cons _ _ ih => rw [List.map_cons, List.map_cons, ih]

theorem ReadAnew.simple (h : ReadAnew prefixes declarations)
    (hlabels : ∀ entry ∈ prefixes, isSimpleName entry.2.toList = true) :
    ∀ entry ∈ declarations, isSimpleName entry.1.toList = true := by
  induction h with
  | nil => exact List.forall_mem_nil _
  | cons _ _ ih =>
      obtain ⟨hlabel, hlabels⟩ := List.forall_mem_cons.mp hlabels
      exact List.forall_mem_cons.mpr ⟨hlabel, ih hlabels⟩

/-! ## Namespaces without references -/

/-- A text between quotes as a value has it, where nothing in it is a reference. -/
def blanked (uri : String) : List Char :=
  (normalizeLines uri.toList).map fun c => if Xml.isSpace c then ' ' else c

theorem attributeValue_plain {cs : List Char} (h : ∀ c ∈ cs, c ≠ '&' ∧ c ≠ '<') :
    Entities.attributeValue {} cs = .ok (cs.map fun c => if Xml.isSpace c then ' ' else c) := by
  induction cs with
  | nil => rw [Entities.attributeValue, List.map_nil]
  | cons c rest ih =>
      obtain ⟨⟨hamp, hlt⟩, hrest⟩ := List.forall_mem_cons.mp h
      rw [Entities.attributeValue, ih hrest]
      simp only [beq_iff_eq, hamp, hlt, if_false]
      split <;> simp_all [Except.map]

/-- What has no blank now had no space before, so it is what it was. -/
theorem eq_of_blanked {uri name : String} (hname : ' ' ∉ name.toList)
    (h : String.ofList (blanked uri) = name) : uri = name := by
  subst h
  rw [String.toList_ofList] at hname
  have hspaces : ∀ c ∈ normalizeLines uri.toList, Xml.isSpace c = false := by
    intro c hc
    rw [← Bool.not_eq_true]
    exact fun hspace => hname (List.mem_map.mpr ⟨c, hc, if_pos hspace⟩)
  have hreturn : '\r' ∉ uri.toList := by
    intro hmem
    have hfeed := hspaces '\n' (Xml.mem_normalizeLines_iff.mpr (.inr ⟨rfl, hmem⟩))
    cases hfeed
  have hsame : blanked uri = normalizeLines uri.toList := by
    have hid : (normalizeLines uri.toList).map (fun c => if Xml.isSpace c then ' ' else c) =
        (normalizeLines uri.toList).map id :=
      List.map_congr_left fun c hc => by rw [hspaces c hc]; rfl
    rw [blanked, hid, List.map_id]
  rw [hsame, Xml.normalizeLines_eq_self_iff.mpr hreturn, String.ofList_toList]

theorem binds_blanked {uri label : String} (h : Binds uri label) :
    Binds (String.ofList (blanked uri)) label := by
  have hkept : ∀ {c}, c ∈ blanked uri → c = ' ' ∨ c ∈ normalizeLines uri.toList := by
    intro c hc
    obtain ⟨d, hd, rfl⟩ := List.mem_map.mp hc
    split
    · exact .inl rfl
    · exact .inr hd
  refine ⟨⟨?_, ?_, ?_, ?_⟩, h.simple, h.unreserved, ?_⟩
  · intro hempty
    have hnil : normalizeLines uri.toList = [] := by simpa [blanked] using hempty
    have hnone := Xml.isEmpty_normalizeLines uri.toList
    rw [hnil] at hnone
    exact h.bindable.nonempty (String.toList_eq_nil_iff.mp (List.isEmpty_iff.mp hnone.symm))
  · exact fun heq => h.bindable.unreserved (eq_of_blanked (by decide) heq)
  · rw [String.toList_ofList]
    intro hmem
    rcases hkept hmem with hblank | hmem
    · cases hblank
    · exact Xml.notMem_normalizeLines (by decide) h.bindable.unbraced hmem
  · rw [String.toList_ofList]
    intro c hc
    rcases hkept hc with rfl | hc
    · decide
    · exact Xml.allLegal_normalizeLines_iff.mpr h.bindable.legal c hc
  · rw [h.xml_iff]
    refine ⟨?_, eq_of_blanked (by decide)⟩
    rintro rfl
    decide

/-- Where no two namespaces have one prefix, and none has an ampersand or a bracket in it, the
prefixes can be declared anew. -/
theorem redeclarable_of_plain (hbinds : ∀ entry ∈ prefixes, Binds entry.1 entry.2)
    (hnodup : (prefixes.map (·.2)).Nodup)
    (hplain : ∀ entry ∈ prefixes, '&' ∉ entry.1.toList ∧ '<' ∉ entry.1.toList) :
    Redeclarable prefixes := by
  refine ⟨prefixes.map fun entry => (entry.2, String.ofList (blanked entry.1)), ?_, ?_, ?_, ?_⟩
  · clear hbinds hnodup
    induction prefixes with
    | nil => exact .nil
    | cons entry prefixes ih =>
        obtain ⟨⟨hamp, hlt⟩, hplain⟩ := List.forall_mem_cons.mp hplain
        refine .cons (attributeValue_plain fun c hc => ⟨?_, ?_⟩) (ih hplain)
        · rintro rfl
          exact Xml.notMem_normalizeLines (by decide) hamp hc
        · rintro rfl
          exact Xml.notMem_normalizeLines (by decide) hlt hc
  · intro entry hentry
    obtain ⟨entry', hentry', rfl⟩ := List.mem_map.mp hentry
    exact (hbinds entry' hentry').simple
  · intro entry hentry
    obtain ⟨entry', hentry', rfl⟩ := List.mem_map.mp hentry
    exact (binds_blanked (hbinds entry' hentry')).faultless
  · rw [List.map_map]
    exact hnodup

/-! ## Declarations that are read -/

theorem readAttributes_redeclared
    (hlabels : ∀ entry ∈ prefixes, isSimpleName entry.2.toList = true)
    (hquotes : ∀ entry ∈ prefixes, '"' ∉ entry.1.toList) {pairs : List (String × String)}
    {tagEnd : Item.TagEnd} {rest final : List Char} :
    (∃ h, Item.readAttributes {} [] (redeclarationChars (fun uri => normalizeLines uri.toList)
        prefixes ++ '>' :: rest) = .ok (pairs, tagEnd, ⟨final, h⟩)) ↔
      tagEnd = .opened ∧ final = rest ∧ (prefixes.map (·.2)).Nodup ∧
        ∃ declarations, ReadAnew prefixes declarations ∧
          pairs = declarations.map fun entry => (declarationName entry.1, entry.2) := by
  induction prefixes generalizing pairs with
  | nil =>
      obtain ⟨hle, hend⟩ := Item.endsTag_opened rest
      rw [redeclarationChars, List.flatMap_nil, List.nil_append, hend]
      constructor
      · rintro ⟨hle', heq⟩
        cases heq
        exact ⟨rfl, rfl, List.nodup_nil, [], .nil, rfl⟩
      · rintro ⟨rfl, rfl, -, declarations, hanew, rfl⟩
        cases hanew
        exact ⟨hle, rfl⟩
  | cons entry prefixes ih =>
      obtain ⟨uri, label⟩ := entry
      obtain ⟨hlabel, hlabels⟩ := List.forall_mem_cons.mp hlabels
      obtain ⟨hquote, hquotes⟩ := List.forall_mem_cons.mp hquotes
      rw [redeclarationChars_cons, Item.readAttributes_cons_iff
        (Xml.isQualified_declarationName hlabel) (Xml.notMem_normalizeLines (by decide) hquote),
        String.ofList_toList]
      constructor
      · rintro ⟨value, more, hvalue, hmore, hfresh, rfl⟩
        obtain ⟨htag, hfinal, hnodup, declarations, hanew, rfl⟩ := (ih hlabels hquotes).mp hmore
        refine ⟨htag, hfinal, List.nodup_cons.mpr ⟨?_, hnodup⟩, _, .cons hvalue hanew, rfl⟩
        rw [← hanew.labels]
        intro hmem
        obtain ⟨entry, hentry, rfl⟩ := List.mem_map.mp hmem
        exact hfresh (List.mem_map.mpr ⟨_, List.mem_map_of_mem hentry, rfl⟩)
      · rintro ⟨htag, hfinal, hnodup, declarations, hanew, rfl⟩
        cases hanew with
        | @cons _ _ value _ declarations hvalue hanew =>
            obtain ⟨hnew, hnodup⟩ := List.nodup_cons.mp hnodup
            refine ⟨value, _, hvalue,
              (ih hlabels hquotes).mpr ⟨htag, hfinal, hnodup, declarations, hanew, rfl⟩, ?_, rfl⟩
            intro hmem
            obtain ⟨pair, hpair, heq⟩ := List.mem_map.mp hmem
            obtain ⟨entry, hentry, rfl⟩ := List.mem_map.mp hpair
            have hmem' : entry.1 ∈ prefixes.map (·.2) :=
              hanew.labels ▸ List.mem_map_of_mem hentry
            rw [Xml.declarationName_inj (hanew.simple hlabels entry hentry) hlabel heq] at hmem'
            exact hnew hmem'

theorem normalizeLines_redeclarationChars
    (hlabels : ∀ entry ∈ prefixes, isSimpleName entry.2.toList = true) (rest : List Char) :
    normalizeLines (redeclarationChars String.toList prefixes ++ rest) =
      redeclarationChars (fun uri => normalizeLines uri.toList) prefixes ++ normalizeLines rest := by
  induction prefixes with
  | nil => rfl
  | cons entry prefixes ih =>
      obtain ⟨hlabel, hlabels⟩ := List.forall_mem_cons.mp hlabels
      have hname : '\r' ∉ (declarationName entry.2).toList :=
        (Xml.isQualified_declarationName hlabel).whole '\r' (by decide)
      rw [redeclarationChars_cons, redeclarationChars_cons,
        Xml.normalizeLines_cons (by decide), Xml.normalizeLines_append_of_notMem hname,
        Xml.normalizeLines_cons (by decide), Xml.normalizeLines_cons (by decide),
        Xml.normalizeLines_append _ (by simp), Xml.normalizeLines_cons (by decide), ih hlabels]

/-- The root of a fragment as it is read, with its line ends normalized. -/
theorem normalizeLines_wrapFragment
    (hlabels : ∀ entry ∈ prefixes, isSimpleName entry.2.toList = true) (markup : String) :
    normalizeLines (wrapFragment prefixes markup).toList = '<' :: ("root".toList ++
      (redeclarationChars (fun uri => normalizeLines uri.toList) prefixes ++
        '>' :: (normalizeLines markup.toList ++ "</root>".toList))) := by
  rw [toList_wrapFragment hlabels, Xml.normalizeLines_cons (by decide),
    Xml.normalizeLines_append_of_notMem (by decide), normalizeLines_redeclarationChars hlabels,
    Xml.normalizeLines_cons (by decide)]
  have hclose : "</root>".toList = '<' :: "/root>".toList := by decide
  have hname : normalizeLines "/root>".toList = "/root>".toList :=
    Xml.normalizeLines_eq_self_iff.mpr (by decide)
  rw [hclose, Xml.normalizeLines_append _ (by simp), Xml.normalizeLines_cons (by decide), hname]

/-! ## The root of a fragment -/

theorem bare_wrapFragment (hlabels : ∀ entry ∈ prefixes, isSimpleName entry.2.toList = true)
    (markup : String) : Xml.Source.Bare (wrapFragment prefixes markup) := by
  rw [Xml.Source.Bare, normalizeLines_wrapFragment hlabels]
  exact ⟨'r', _, by decide, _, Xml.Source.skipMisc_element (by decide) _⟩

/-- The name of the root ends where its declarations begin. -/
theorem reads_rootName (between : String → List Char) (prefixes : Entries String String)
    (rest : List Char) :
    Reads (Xml.qualifiedName ("root".toList ++
      (redeclarationChars between prefixes ++ '>' :: rest))) "root".toList
      (redeclarationChars between prefixes ++ '>' :: rest) := by
  refine Xml.reads_qualifiedName (.inl (by decide)) ?_
  cases prefixes with
  | nil => exact Xml.endsName_cons (Xml.isNameChar_mark (by decide)) (by decide)
  | cons entry more =>
      rw [redeclarationChars_cons]
      exact Xml.endsName_cons (Xml.isNameChar_mark (by decide)) (by decide)

/-- Where any fragment is read the prefixes can be declared anew. -/
theorem redeclarable_of_wrapFragment
    (hlabels : ∀ entry ∈ prefixes, isSimpleName entry.2.toList = true)
    (hquotes : ∀ entry ∈ prefixes, '"' ∉ entry.1.toList) {source : Xml.Source}
    (h : Xml.Source.ofText (wrapFragment prefixes markup) = .ok source) :
    Redeclarable prefixes := by
  obtain ⟨-, item, resolved, others, ⟨body, after, hskips, helement, -⟩, hresolve, -⟩ :=
    (bare_wrapFragment hlabels markup).ofText_inv h
  rw [normalizeLines_wrapFragment hlabels] at hskips
  obtain ⟨hle, hskips⟩ := hskips
  have hstart : Xml.Source.skipMisc ('<' :: ("root".toList ++
      (redeclarationChars (fun uri => normalizeLines uri.toList) prefixes ++
        '>' :: (normalizeLines markup.toList ++ "</root>".toList)))) = .ok ⟨_, Nat.le_refl _⟩ :=
    Xml.Source.skipMisc_element (by decide) _
  rw [hstart] at hskips
  cases hskips
  obtain ⟨pairs, tagEnd, ⟨final, hle'⟩, content, hattributes, rfl, -⟩ :=
    Xml.readElement_split (reads_rootName _ prefixes _) helement
  obtain ⟨-, -, hnodup, declarations, hanew, rfl⟩ :=
    (readAttributes_redeclared hlabels hquotes).mp ⟨hle', hattributes⟩
  obtain ⟨⟨bound, hbound, -⟩, -⟩ := Xml.resolve_element_inv hresolve
  have hsimple := hanew.simple hlabels
  exact ⟨declarations, hanew, hsimple, Scope.faultless_of_bindings hsimple hbound,
    hanew.labels ▸ hnodup⟩

theorem allLegal_wrapFragment (hbinds : ∀ entry ∈ prefixes, Binds entry.1 entry.2)
    (hmarkup : Xml.AllLegal markup.toList) :
    Xml.AllLegal (normalizeLines (wrapFragment prefixes markup).toList) := by
  have hdeclarations : Xml.AllLegal (redeclarationChars String.toList prefixes) := by
    intro c hc
    obtain ⟨entry, hentry, hc⟩ := List.mem_flatMap.mp hc
    have hbound := hbinds entry hentry
    have hall : Xml.AllLegal (' ' :: ((declarationName entry.2).toList ++
        '=' :: '"' :: (entry.1.toList ++ ['"']))) := by
      refine Xml.allLegal_cons.mpr ⟨by decide, Xml.allLegal_append.mpr
        ⟨(Xml.isQualified_declarationName hbound.simple).allLegal, ?_⟩⟩
      refine Xml.allLegal_cons.mpr ⟨by decide, Xml.allLegal_cons.mpr ⟨by decide, ?_⟩⟩
      exact Xml.allLegal_append.mpr ⟨hbound.bindable.legal, Xml.allLegal_iff_all.mpr (by decide)⟩
    exact hall c hc
  rw [Xml.allLegal_normalizeLines_iff,
    toList_wrapFragment fun entry hentry => (hbinds entry hentry).simple]
  refine Xml.allLegal_cons.mpr ⟨by decide, Xml.allLegal_append.mpr
    ⟨Xml.allLegal_iff_all.mpr (by decide), Xml.allLegal_append.mpr ⟨hdeclarations, ?_⟩⟩⟩
  exact Xml.allLegal_cons.mpr ⟨by decide, Xml.allLegal_append.mpr
    ⟨hmarkup, Xml.allLegal_iff_all.mpr (by decide)⟩⟩

/-- A root with declarations and no other attributes resolves to what stands in it. -/
theorem resolve_declaredRoot (hdeclared : Declarable declarations) {content : List Item}
    {inside : Xml.Resolved}
    (hinside : Xml.resolve (declarations.reverse ++ Scope.initial) content = .ok inside) :
    Xml.resolve Scope.initial [.element "root".toList
        (declarations.map fun entry => (declarationName entry.1, entry.2)) content] =
      .ok ⟨[], [{ name := "root", text := inside.lead, children := inside.nodes }],
        declarations ++ inside.bindings ++ []⟩ := by
  have hbound : Scope.bindings (declarations.map (fun entry =>
      (declarationName entry.1, entry.2)) ++ []) = .ok declarations :=
    Scope.bindings_declared hdeclared rfl
  have hname : Scope.elementName (declarations.reverse ++ Scope.initial)
      (String.ofList "root".toList) = .ok "root" := by
    have hsimple : Scope.splitName "root" = (none, "root") :=
      Scope.splitName_simple (by decide)
    rw [String.ofList_toList, Scope.elementName, hsimple]
    dsimp only
    rw [Scope.uri?_empty_declared hdeclared]
  have hnone : Scope.attributes (declarations.reverse ++ Scope.initial)
      (declarations.map (fun entry => (declarationName entry.1, entry.2)) ++ []) = .ok [] := by
    refine Scope.attributes_append_of_binding fun pair hpair => ?_
    obtain ⟨entry, hentry, rfl⟩ := List.mem_map.mp hpair
    rw [Xml.boundPrefix?_declarationName (hdeclared.labels entry hentry)]
    rfl
  rw [List.append_nil] at hbound hnone
  exact Xml.resolve_cons hbound hname hnone hinside (Xml.resolve_nil _)

/-- Where the prefixes can be declared anew, markup that can be read alone is read as its root. -/
theorem fragment_of_redeclarable (hbinds : ∀ entry ∈ prefixes, Binds entry.1 entry.2)
    (hquotes : ∀ entry ∈ prefixes, '"' ∉ entry.1.toList) (hprefixes : Redeclarable prefixes)
    {source : Xml.Source} (hbare : Xml.Source.Bare markup)
    (hread : Xml.Source.ofText markup = .ok source) :
    fragment prefixes markup = .ok source.root := by
  have hlabels : ∀ entry ∈ prefixes, isSimpleName entry.2.toList = true :=
    fun entry hentry => (hbinds entry hentry).simple
  obtain ⟨declarations, hanew, hdeclared⟩ := hprefixes
  obtain ⟨hlegal, item, resolved, others, halone, hresolve, hroot⟩ := hbare.ofText_inv hread
  -- the root is read, with the item among texts
  have hattributes : ∃ h, Item.readAttributes {} []
      (redeclarationChars (fun uri => normalizeLines uri.toList) prefixes ++
        '>' :: (normalizeLines markup.toList ++ "</root>".toList)) =
      .ok (declarations.map (fun entry => (declarationName entry.1, entry.2)), .opened,
        ⟨normalizeLines markup.toList ++ "</root>".toList, h⟩) :=
    (readAttributes_redeclared hlabels hquotes).mpr
      ⟨rfl, rfl, hanew.labels ▸ hdeclared.nodup, declarations, hanew, rfl⟩
  obtain ⟨front, back, hcontent⟩ := halone.enclosed "root>".toList
  have hitem := Xml.readElement_opened (reads_rootName _ prefixes _) hattributes hcontent
  -- under the declarations the item resolves to what it resolved to alone
  have hinside := Xml.resolve_texts front
    (Xml.resolve_tail ((Scope.within_declared hdeclared).resolve hresolve) hroot back)
  have hlines := normalizeLines_wrapFragment hlabels markup
  have hall := allLegal_wrapFragment hbinds (Xml.allLegal_normalizeLines_iff.mp hlegal)
  rw [hlines] at hall
  have hwrapped := Xml.Source.ofText_element
    (by rw [(bare_wrapFragment hlabels markup).dropMark]; exact hlines) hall (by decide)
    hitem (resolve_declaredRoot hdeclared hinside) rfl
  have htail : { source.root with tail := [] } = source.root :=
    source.root.eta_of_tail (Xml.Source.sound_of_ofText hread).2.1
  rw [fragment, hwrapped]
  exact congrArg Except.ok htail

theorem redeclarable_of_fragment (hbinds : ∀ entry ∈ prefixes, Binds entry.1 entry.2)
    (hquotes : ∀ entry ∈ prefixes, '"' ∉ entry.1.toList) {node : Node}
    (h : fragment prefixes markup = .ok node) : Redeclarable prefixes := by
  unfold fragment at h
  split at h
  · cases h
  · rename_i hwrapped
    exact redeclarable_of_wrapFragment (fun entry hentry => (hbinds entry hentry).simple) hquotes
      hwrapped

/-! ## Markup of one empty tag -/

/-- Markup that is one empty tag is read as a node without content. -/
theorem ofText_emptyTag (text tag : String) (pairs : List (String × String))
    {bound attributes : List (String × String)} (htag : isSimpleName tag.toList = true)
    (hpairs : checksTag pairs = true)
    (htext : text.toList = '<' :: (tag.toList ++
      (pairs.flatMap (fun pair => Xml.attributeChars pair.1 pair.2) ++ ['/', '>'])))
    (hchars : text.toList.all (fun c => Xml.isLegal c && c != '\r') = true)
    (hbound : Scope.bindings pairs = .ok bound)
    (hname : Scope.elementName (bound.reverse ++ Scope.initial) tag = .ok tag)
    (hattributes : Scope.attributes (bound.reverse ++ Scope.initial) pairs = .ok attributes) :
    Xml.Source.Bare text ∧
      Xml.Source.ofText text = .ok { root := { name := tag, attributes }, bindings := bound } := by
  obtain ⟨hlegal, hlines⟩ := Xml.normalized_of_all hchars
  obtain ⟨cs, hlabel, hread⟩ := reads_checkedTag (.inl htag) hpairs
    (Xml.endsName_cons (Xml.isNameChar_mark (by decide)) (by decide)) (Item.endsTag_slash [])
  have hitem := Xml.readElement_empty hlabel hread
  obtain ⟨c, more, hstart, hc, -⟩ := Xml.exists_cons_of_isSimpleName htag
  have hname' : Scope.elementName (bound.reverse ++ Scope.initial) (String.ofList tag.toList) =
      .ok tag := by
    rw [String.ofList_toList]
    exact hname
  have hresolve := Xml.resolve_cons hbound hname' hattributes (Xml.resolve_nil _)
    (Xml.resolve_nil _)
  rw [hstart] at htext hitem hresolve
  have hbare : Xml.Source.Bare text := by
    rw [Xml.Source.Bare, hlines, htext]
    exact ⟨c, _, hc, _, Xml.Source.skipMisc_element hc _⟩
  refine ⟨hbare, ?_⟩
  rw [Xml.Source.ofText_element (by rw [hbare.dropMark, hlines, htext]; rfl)
    (htext ▸ hlegal) hc hitem hresolve rfl, List.append_nil, List.append_nil]

/-! ## Markup alone and where prefixes are in scope -/

/-- Markup that can be read alone is read as the same element where prefixes are in scope exactly
if they can be declared anew: what stands for their namespaces between quotes, as it is, is read as
something that may be bound, and no prefix has two namespaces. -/
theorem fragment_alone_iff {doc : Document} {source : Xml.Source}
    (hdoc : Document.ofText text = .ok doc) (hquotes : ∀ uri ∈ doc.prefixes.keys, '"' ∉ uri.toList)
    (hbare : Xml.Source.Bare markup) (hread : Xml.Source.ofText markup = .ok source) :
    fragment doc.prefixes markup = .ok source.root ↔ Redeclarable doc.prefixes := by
  have hbinds := (spelled_of_ofText hdoc).prefixes
  have hquotes' : ∀ entry ∈ doc.prefixes, '"' ∉ entry.1.toList :=
    fun entry hentry => hquotes entry.1 (List.mem_map_of_mem hentry)
  exact ⟨redeclarable_of_fragment hbinds hquotes',
    fun hprefixes => fragment_of_redeclarable hbinds hquotes' hprefixes hbare hread⟩

/-- A box that binds a prefix for itself. -/
def rebound : String := "<box xmlns:on=\"urn:b\" on:click=\"x()\"/>"

/-- In a document where that prefix stands for something else the box is what it is alone. -/
theorem rebound_alone : ∃ source, Document.ofText boundOnce = .ok boundOnceDocument ∧
    (∀ uri ∈ boundOnceDocument.prefixes.keys, '"' ∉ uri.toList) ∧ Xml.Source.Bare rebound ∧
    Xml.Source.ofText rebound = .ok source ∧
    fragment boundOnceDocument.prefixes rebound = .ok source.root := by
  obtain ⟨hbare, hread⟩ := ofText_emptyTag rebound "box"
    [("xmlns:on", "urn:b"), ("on:click", "x()")] (by decide) (by decide +kernel) (by decide)
    (by decide) rfl rfl rfl
  have hquotes : ∀ uri ∈ boundOnceDocument.prefixes.keys, '"' ∉ uri.toList := by decide
  have hprefixes : Redeclarable boundOnceDocument.prefixes := redeclarable_of_plain
    (spelled_of_ofText ofText_boundOnce).prefixes (by decide) (by decide)
  exact ⟨_, ofText_boundOnce, hquotes, hbare, hread,
    (fragment_alone_iff ofText_boundOnce hquotes hbare hread).mpr hprefixes⟩

/-- A box without attributes, as the markup of a node. -/
def plainBox : String := "<box/>"

theorem ofText_plainBox : Xml.Source.Bare plainBox ∧
    Xml.Source.ofText plainBox = .ok { root := { name := "box" }, bindings := [] } :=
  ofText_emptyTag plainBox "box" [] (by decide) rfl (by decide) (by decide)
    rfl rfl rfl

/-- A document with a prefix for a namespace that has an ampersand in it. -/
def ampersand : String := "<vml xmlns:q=\"urn:a&amp;b\" id=\"r\"/>"

theorem ofText_ampersand : ∃ doc, Document.ofText ampersand = .ok doc ∧
    doc.prefixes = [("urn:a&b", "q")] := by
  obtain ⟨-, hread⟩ := ofText_emptyTag ampersand "vml"
    [("xmlns:q", "urn:a&b"), ("id", "r")] (by decide) (by decide +kernel) (by decide)
    (by decide) rfl rfl rfl
  have htrim : Text.trim ampersand = ampersand := by decide
  rw [Document.ofText, Xml.Source.ofMarkup, htrim, hread]
  exact ⟨_, rfl, rfl⟩

/-- The box is read alone, but not in that document, nor in one that binds a prefix anew. -/
theorem plainBox_refused :
    ∃ source, Xml.Source.ofText plainBox = .ok source ∧
      (∃ doc, Document.ofText ampersand = .ok doc ∧
        ∀ node, fragment doc.prefixes plainBox ≠ .ok node) ∧
      ∃ doc, Document.ofText boundAnew = .ok doc ∧
        ∀ node, fragment doc.prefixes plainBox ≠ .ok node := by
  refine ⟨_, ofText_plainBox.2, ?_, boundAnewDocument, ofText_boundAnew, fun node hnode => ?_⟩
  · obtain ⟨doc, hdoc, hprefixes⟩ := ofText_ampersand
    refine ⟨doc, hdoc, fun node hnode => ?_⟩
    have hquotes : ∀ entry ∈ doc.prefixes, '"' ∉ entry.1.toList := by
      rw [hprefixes]
      decide
    obtain ⟨declarations, hanew, -⟩ :=
      redeclarable_of_fragment (spelled_of_ofText hdoc).prefixes hquotes hnode
    rw [hprefixes] at hanew
    cases hanew with
    | cons hvalue _ =>
        -- what follows the ampersand is no reference
        have hlines : normalizeLines "urn:a&b".toList = "urn:a&b".toList := by decide
        have hopen : Xml.until? [';'] ['b'] = none := by
          rw [← Option.not_isSome_iff_eq_none]
          intro hsome
          have hmem := Xml.mem_of_until?_isSome hsome List.mem_cons_self
          cases List.mem_singleton.mp hmem
        rw [hlines] at hvalue
        simp [Entities.attributeValue, Xml.isSpace, Xml.reference, hopen, Except.map] at hvalue
  · obtain ⟨declarations, hanew, hdeclared⟩ := redeclarable_of_fragment
      (spelled_of_ofText ofText_boundAnew).prefixes (by decide) hnode
    have hnodup := hdeclared.nodup
    rw [hanew.labels] at hnodup
    exact absurd hnodup (by decide)

end Document

end Cuesheet
