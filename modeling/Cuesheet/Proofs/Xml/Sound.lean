import Cuesheet.Proofs.Xml.Declared
import Cuesheet.Proofs.Xml.Labels
import Cuesheet.Proofs.Xml.Rereading

/-!
# What reading returns

Whatever text is read, the document that comes out is sound (`Source.sound_of_ofText`): its names
are such as markup can spell, its characters may stand in a document, and the prefixes that it
binds may be bound.
-/

namespace Cuesheet.Xml

/-! ## Content -/

namespace Item

/-- The names in an item are names, and its characters may stand in a document. -/
inductive Sound : Item → Prop
  | text {cs : List Char} (hcs : AllLegal cs) : Sound (.text cs)
  | element {name : List Char} {attributes : List (String × String)} {content : List Item}
      (hname : IsQualified name)
      (hattributes : ∀ pair ∈ attributes, IsQualified pair.1.toList ∧ AllLegal pair.2.toList)
      (hcontent : ∀ item ∈ content, Sound item) : Sound (.element name attributes content)

variable {entities : Entities} {cs : List Char}

theorem tagEnd?_subset {tagEnd : TagEnd} {rest : Rest cs}
    (h : tagEnd? cs = some (tagEnd, rest)) : rest.1 ⊆ cs := by
  unfold tagEnd? at h
  split at h
  · rename_i after _ hafter
    cases h
    exact after?_subset hafter
  · rename_i after _ hafter
    cases h
    exact after?_subset hafter
  · cases h

theorem writtenAttribute_taken {name raw : List Char}
    {rest : { rest : List Char // rest.length < cs.length }}
    (h : writtenAttribute cs = .ok ((name, raw), rest)) :
    IsQualified name ∧ raw ⊆ cs ∧ rest.1 ⊆ cs := by
  unfold writtenAttribute at h
  split at h
  · cases h
  · rename_i name' rest1 h1 hname
    dsimp only at h
    split at h
    · cases h
    · rename_i rest3 h3 hequals
      split at h
      · cases h
      · rename_i raw' rest5 h5 hquoted
        cases h
        obtain ⟨hraw, hrest⟩ := quotedValue_taken hquoted
        have hsub : (skipSpace rest3).1 ⊆ cs := fun e he =>
          qualifiedName_subset hname (skipSpace_subset rest1
            (afterChar?_subset hequals (skipSpace_subset rest3 he)))
        exact ⟨(qualifiedName_taken hname).1, fun e he => hsub (hraw he),
          fun e he => hsub (hrest he)⟩

theorem skipSpace_eq_subset {rest : List Char} {hle : rest.length ≤ cs.length}
    (h : skipSpace cs = ⟨rest, hle⟩) : rest ⊆ cs := by
  have hsub := skipSpace_subset cs
  rwa [h] at hsub

theorem readAttributes_sound {rules : List AttributeRule} {pairs : List (String × String)}
    {tagEnd : TagEnd} {rest : Rest cs} (hentities : entities.Sound) (hcs : AllLegal cs)
    (h : readAttributes entities rules cs = .ok (pairs, tagEnd, rest)) :
    (∀ pair ∈ pairs, IsQualified pair.1.toList ∧ AllLegal pair.2.toList) ∧ rest.1 ⊆ cs := by
  fun_induction readAttributes entities rules cs generalizing pairs tagEnd with
  | case1 cs body hbody hskip tagEnd' after hle htag =>
      cases h
      exact ⟨List.forall_mem_nil _, fun e he => skipSpace_eq_subset hskip (tagEnd?_subset htag he)⟩
  | case7 cs body hbody hskip _ _ name raw after hlt hattribute value hvalue more tagEnd' after'
      hle' hmore =>
      rename_i ih
      cases h
      have hsub := skipSpace_eq_subset hskip
      obtain ⟨hname, hraw, hafter⟩ := writtenAttribute_taken hattribute
      have hrest : after ⊆ cs := fun e he => hsub (hafter he)
      obtain ⟨hpairs, hlast⟩ := ih (hcs.subset hrest) hmore
      have hvalue := Entities.attributeValue_legal hentities
        (hcs.subset fun e he => hsub (hraw he)) hvalue
      refine ⟨List.forall_mem_cons.mpr ⟨⟨?_, ?_⟩, hpairs⟩, fun e he => hrest (hlast he)⟩
      · rw [String.toList_ofList]
        exact hname
      · rw [String.toList_ofList]
        split
        · exact tokenValue_legal hvalue
        · exact hvalue
  | _ => cases h

theorem withDefaults_sound {rules : List AttributeRule} {given : List (String × String)}
    (hrules : ∀ rule ∈ rules, Declarations.RuleSound rule)
    (hgiven : ∀ pair ∈ given, IsQualified pair.1.toList ∧ AllLegal pair.2.toList) :
    ∀ pair ∈ withDefaults rules given, IsQualified pair.1.toList ∧ AllLegal pair.2.toList := by
  intro pair hpair
  rcases List.mem_append.mp hpair with hpair | hpair
  · exact hgiven pair hpair
  · obtain ⟨rule, hrule, hdefault⟩ := List.mem_filterMap.mp hpair
    split at hdefault
    · cases hdefault
    · obtain ⟨value, hvalue, rfl⟩ := Option.map_eq_some_iff.mp hdefault
      refine ⟨(hrules rule hrule).name, ?_⟩
      rw [String.toList_ofList]
      exact (hrules rule hrule).default value hvalue

variable {rules : Entries String (List AttributeRule)}

/-- Reading content, and reading an element, gives sound items. -/
structure ReadsSound (rules : Entries String (List AttributeRule)) (entities : Entities)
    (cs : List Char) : Prop where
  content : ∀ {items} {rest : Rest cs}, readContent entities rules cs = .ok (items, rest) →
    (∀ item ∈ items, Sound item) ∧ rest.1 ⊆ cs
  element : ∀ {item} {rest : { rest : List Char // rest.length < cs.length }},
    readElement entities rules cs = .ok (item, rest) → Sound item ∧ rest.1 ⊆ cs

/-- Where reading does it goes on with less: with fewer entities or a shorter text. -/
def SoundBelow (rules : Entries String (List AttributeRule)) (entities : Entities)
    (cs : List Char) : Prop :=
  ∀ entities' cs', entities'.Sound → AllLegal cs' →
    entities'.texts.length < entities.texts.length ∨
      entities'.texts.length = entities.texts.length ∧ cs'.length < cs.length →
    ReadsSound rules entities' cs'

theorem readElement_step (hrules : Declarations.RulesSound rules) (hentities : entities.Sound)
    (hcs : AllLegal cs) (ih : SoundBelow rules entities cs) {item : Item}
    {rest : { rest : List Char // rest.length < cs.length }}
    (h : readElement entities rules cs = .ok (item, rest)) : Sound item ∧ rest.1 ⊆ cs := by
  rw [readElement] at h
  split at h
  · cases h
  · rename_i name rest1 h1 hname
    obtain ⟨hqualified, -⟩ := qualifiedName_taken hname
    have hrest1 := qualifiedName_subset hname
    have hown := Declarations.rules_value? hrules (String.ofList name)
    dsimp only at h
    split at h
    · cases h
    · rename_i given rest2 h2 hattributes
      cases h
      obtain ⟨hgiven, hrest2⟩ := readAttributes_sound hentities (hcs.subset hrest1) hattributes
      exact ⟨.element hqualified (withDefaults_sound hown hgiven) (List.forall_mem_nil _),
        fun e he => hrest1 (hrest2 he)⟩
    · rename_i given rest2 h2 hattributes
      obtain ⟨hgiven, hrest2⟩ := readAttributes_sound hentities (hcs.subset hrest1) hattributes
      have hinside : rest2 ⊆ cs := fun e he => hrest1 (hrest2 he)
      split at h
      · cases h
      · rename_i items rest3 h3 hcontent
        obtain ⟨hitems, hrest3⟩ := (ih entities rest2 hentities (hcs.subset hinside)
          (.inr ⟨rfl, by omega⟩)).content hcontent
        split at h
        · cases h
        · rename_i rest4 h4 hclose
          split at h
          · cases h
          · rename_i rest5 h5 hlabel
            split at h
            · cases h
            · rename_i rest6 h6 hbracket
              cases h
              exact ⟨.element hqualified (withDefaults_sound hown hgiven) hitems, fun e he =>
                hinside (hrest3 (after?_subset hclose (after?_subset hlabel
                  (skipSpace_subset rest5 (afterChar?_subset hbracket he)))))⟩

/-- What is read behind a piece of content. -/
theorem SoundBelow.behind (ih : SoundBelow rules entities cs) (hentities : entities.Sound)
    (hcs : AllLegal cs) {more : List Char} {items : List Item} {rest : Rest more}
    (hsub : more ⊆ cs) (hlt : more.length < cs.length)
    (h : readContent entities rules more = .ok (items, rest)) :
    (∀ item ∈ items, Sound item) ∧ rest.1 ⊆ cs := by
  obtain ⟨hitems, hrest⟩ :=
    (ih entities more hentities (hcs.subset hsub) (.inr ⟨rfl, hlt⟩)).content h
  exact ⟨hitems, fun e he => hsub (hrest he)⟩

/-- What is read for an entity. -/
theorem SoundBelow.entered (ih : SoundBelow rules entities cs) (hentities : entities.Sound)
    {name : String} {named : List Char}
    {inner : { inner : Entities // inner.texts.length < entities.texts.length }}
    {items : List Item} {rest : Rest named}
    (henter : entities.enter? name = .ok (some (named, inner)))
    (h : readContent inner.1 rules named = .ok (items, rest)) : ∀ item ∈ items, Sound item := by
  obtain ⟨hnamed, hinner⟩ := Entities.enter?_sound hentities henter
  exact ((ih inner.1 named hinner hnamed (.inl inner.2)).content h).1

theorem readContent_step (hentities : entities.Sound) (hcs : AllLegal cs)
    (ih : SoundBelow rules entities cs) {items : List Item} {rest : Rest cs}
    (h : readContent entities rules cs = .ok (items, rest)) :
    (∀ item ∈ items, Sound item) ∧ rest.1 ⊆ cs := by
  rw [readContent.eq_def] at h
  split at h
  · cases h
    exact ⟨List.forall_mem_nil _, List.Subset.refl _⟩
  · cases h
    exact ⟨List.forall_mem_nil _, List.Subset.refl _⟩
  · -- a comment
    rename_i body
    split at h
    · cases h
    · rename_i after hle hcomment
      split at h
      · cases h
      · rename_i items' last hle' hread
        cases h
        have hsub : after ⊆ '<' :: '!' :: '-' :: '-' :: body := fun e he => by
          simp [comment_subset hcomment he]
        have hbehind := ih.behind hentities hcs hsub (by simp only [List.length_cons]; omega) hread
        exact hbehind
  · -- a literal section
    rename_i body _
    split at h
    · cases h
    · rename_i inside hle hopen
      split at h
      · cases h
      · rename_i literal after hle' huntil
        split at h
        · cases h
        · rename_i items' last hle'' hread
          cases h
          obtain ⟨hliteral, hafter⟩ := until?_subset huntil
          have hinside : inside ⊆ '<' :: '!' :: body := fun e he => by
            simp [after?_subset hopen he]
          obtain ⟨hitems, hrest⟩ := ih.behind hentities hcs (fun e he => hinside (hafter he))
            (by simp only [List.length_cons]; omega) hread
          refine ⟨List.forall_mem_cons.mpr ⟨.text ?_, hitems⟩, hrest⟩
          exact hcs.subset fun e he => hinside (hliteral he)
  · -- a processing instruction
    rename_i body
    split at h
    · cases h
    · rename_i after hle hinstruction
      split at h
      · cases h
      · rename_i items' last hle' hread
        cases h
        have hsub : after ⊆ '<' :: '?' :: body := fun e he => by
          simp [instruction_subset hinstruction he]
        have hbehind := ih.behind hentities hcs hsub (by simp only [List.length_cons]; omega) hread
        exact hbehind
  · -- an element
    rename_i body _ _ _ _
    split at h
    · cases h
    · rename_i item after hlt helement
      split at h
      · cases h
      · rename_i items' last hle' hread
        cases h
        have hbody : body ⊆ '<' :: body := List.subset_cons_self _ _
        obtain ⟨hitem, hafter⟩ := (ih entities body hentities (hcs.subset hbody)
          (.inr ⟨rfl, Nat.lt_succ_self _⟩)).element helement
        obtain ⟨hitems, hrest⟩ := ih.behind hentities hcs (fun e he => hbody (hafter he))
          (by simp only [List.length_cons]; omega) hread
        exact ⟨List.forall_mem_cons.mpr ⟨hitem, hitems⟩, hrest⟩
  · -- a reference
    rename_i body
    split at h
    · cases h
    · rename_i r after hle href
      obtain ⟨hafter, hlegal⟩ := reference_taken href
      dsimp only at h
      split at h
      · cases h
      · rename_i replaced hreplaced
        split at h
        · cases h
        · rename_i items' last hle' hread
          cases h
          obtain ⟨hitems, hrest⟩ := ih.behind hentities hcs
            (fun e he => List.mem_cons_of_mem _ (hafter he))
            (by simp only [List.length_cons]; omega) hread
          refine ⟨List.forall_mem_append.mpr ⟨?_, hitems⟩, hrest⟩
          split at hreplaced
          · rename_i c
            cases hreplaced
            have hc : AllLegal [c] := allLegal_cons.mpr ⟨hlegal c rfl, allLegal_nil⟩
            exact List.forall_mem_cons.mpr ⟨.text hc, List.forall_mem_nil _⟩
          · split at hreplaced
            · cases hreplaced
            · cases hreplaced
            · rename_i named inner hfewer henter
              split at hreplaced
              · cases hreplaced
              · rename_i items'' hle'' hread'
                cases hreplaced
                exact ih.entered hentities henter hread'
              · cases hreplaced
  · -- plain text
    rename_i c body _ _ _ _ _ _
    dsimp only at h
    split at h
    · cases h
    · split at h
      · cases h
      · rename_i items' last hle hread
        cases h
        have hdrop : body.drop (plainRun body).length ⊆ c :: body :=
          fun e he => List.mem_cons_of_mem _ (List.drop_subset _ _ he)
        obtain ⟨hitems, hrest⟩ := ih.behind hentities hcs hdrop
          (by simp only [List.length_cons, List.length_drop]; omega) hread
        refine ⟨List.forall_mem_cons.mpr ⟨.text ?_, hitems⟩, hrest⟩
        refine hcs.subset (List.cons_subset_cons _ ?_)
        exact (List.takeWhile_prefix _).subset

/-- By induction on what reading goes on with: the number of entities first, then the text. -/
theorem readsSound (hrules : Declarations.RulesSound rules) (entities : Entities) (cs : List Char)
    (hentities : entities.Sound) (hcs : AllLegal cs) : ReadsSound rules entities cs := by
  have hbelow : SoundBelow rules entities cs :=
    fun entities' cs' hentities' hcs' _ => readsSound hrules entities' cs' hentities' hcs'
  exact ⟨readContent_step hentities hcs hbelow, readElement_step hrules hentities hcs hbelow⟩
termination_by (entities.texts.length, cs.length)
decreasing_by
  rename_i hless
  rcases hless with hfewer | ⟨hsame, hshorter⟩
  · exact .left _ _ hfewer
  · rw [hsame]
    exact .right _ hshorter

end Item

/-! ## Prefixes -/

/-- What a prefix can be bound to where it is declared; the empty prefix also to nothing. -/
def Bound (label uri : String) : Prop :=
  label = "" ∧ (uri = "" ∨ Bindable uri) ∨ Binds uri label

/-- The names of a node can be spelled, and what it says may stand in a document. -/
structure Node.Sound (node : Node) : Prop where
  proper : node.Proper
  legal : node.Legal

namespace Scope

variable {scope : Scope} {label name uri expanded : String}

/-- Prefixes are bound to what they can be bound to. -/
def Sound (scope : Scope) : Prop := ∀ entry ∈ scope, Bound entry.1 entry.2

theorem sound_initial : Sound initial := by
  intro entry hentry
  rw [List.mem_singleton.mp hentry]
  exact .inr (Registry.proper_wellKnown.binds _ Registry.proper_wellKnown.xml)

theorem bound_of_uri? (hscope : scope.Sound) (h : scope.uri? label = some uri) :
    Bound label uri := by
  obtain ⟨entry, hfind, rfl⟩ := Option.map_eq_some_iff.mp h
  have hlabel := List.find?_some hfind
  rw [← eq_of_beq hlabel]
  exact hscope entry (List.mem_of_find?_eq_some hfind)

theorem binds_of_uri? (hscope : scope.Sound) (h : scope.uri? label = some uri)
    (hlabel : isSimpleName label.toList = true) : Binds uri label := by
  rcases bound_of_uri? hscope h with ⟨rfl, -⟩ | hbinds
  · cases hlabel
  · exact hbinds

/-- A name as it is written is simple, or has a simple prefix and a simple part. -/
theorem splitName_cases (h : IsQualified name.toList) :
    isSimpleName name.toList = true ∧ splitName name = (none, name) ∨
      ∃ label part, splitName name = (some label, part) ∧ isSimpleName label.toList = true ∧
        isSimpleName part.toList = true := by
  rcases h with h | ⟨label, part, hname, hlabel, hpart⟩
  · exact .inl ⟨h, splitName_simple h⟩
  · refine .inr ⟨String.ofList label, String.ofList part, ?_, by simpa using hlabel,
      by simpa using hpart⟩
    rw [splitName, hname, splitAtFirst_of_notMem (colon_notMem hlabel)]

theorem bound_of_faultless (hlegal : AllLegal uri.toList)
    (hlabel : label = "" ∨ isSimpleName label.toList = true)
    (h : bindingFault? label uri = none) : Bound label uri := by
  unfold bindingFault? at h
  split_ifs at h with hreserved hxml hempty hbrace
  obtain ⟨hlabel', huri⟩ : label ≠ "xmlns" ∧ uri ≠ xmlnsUri := by simpa using hreserved
  have hunbraced : '\x7d' ∉ uri.toList := by simpa using hbrace
  rcases hlabel with rfl | hsimple
  · refine .inl ⟨rfl, ?_⟩
    by_cases hnone : uri = ""
    · exact .inl hnone
    · exact .inr ⟨hnone, huri, hunbraced, hlegal⟩
  · have hnonempty : uri ≠ "" := by
      rintro rfl
      have hne : label.isEmpty = false := by
        rw [String.isEmpty_eq_false_iff]
        rintro rfl
        cases hsimple
      simp [hne] at hempty
    have hiff : label = "xml" ↔ uri = xmlUri := by
      by_cases hl : label = "xml" <;> by_cases hu : uri = xmlUri <;> simp_all
    exact .inr ⟨⟨hnonempty, huri, hunbraced, hlegal⟩, hsimple, hlabel', hiff⟩

theorem bindings_sound {pairs bound : List (String × String)}
    (hpairs : ∀ pair ∈ pairs, IsQualified pair.1.toList ∧ AllLegal pair.2.toList)
    (h : bindings pairs = .ok bound) : Sound bound := by
  induction pairs generalizing bound with
  | nil =>
      cases h
      exact List.forall_mem_nil _
  | cons pair rest ih =>
      obtain ⟨name, value⟩ := pair
      obtain ⟨⟨hname, hvalue⟩, hrest⟩ := List.forall_mem_cons.mp hpairs
      rw [bindings] at h
      split at h
      · exact ih hrest h
      · rename_i label hbound
        split at h
        · cases h
        · rename_i hfault
          obtain ⟨more, hmore, rfl⟩ := Entities.ok_of_map h
          refine List.forall_mem_cons.mpr ⟨bound_of_faultless hvalue ?_ hfault, ih hrest hmore⟩
          unfold boundPrefix? at hbound
          rcases splitName_cases hname with ⟨-, hsplit⟩ | ⟨label', part, hsplit, -, hpart⟩
          · rw [hsplit] at hbound
            split at hbound <;> simp_all
          · rw [hsplit] at hbound
            split at hbound <;> simp_all

theorem elementName_proper (hscope : scope.Sound) (hname : IsQualified name.toList)
    (h : scope.elementName name = .ok expanded) : Proper expanded := by
  unfold elementName at h
  rcases splitName_cases hname with ⟨hsimple, hsplit⟩ | ⟨label, part, hsplit, hlabel, hpart⟩
  · rw [hsplit] at h
    dsimp only at h
    split at h
    · cases h
      exact .simple hsimple
    · rename_i uri huri
      cases h
      split
      · exact .simple hsimple
      · rename_i hnonempty
        have hne : uri ≠ "" := by simpa using hnonempty
        rcases bound_of_uri? hscope huri with ⟨-, hnone | hbindable⟩ | hbinds
        · exact absurd hnone hne
        · exact .within hbindable hsimple
        · exact .within hbinds.bindable hsimple
  · rw [hsplit] at h
    dsimp only at h
    split at h
    · cases h
    · rename_i uri huri
      cases h
      exact .within (binds_of_uri? hscope huri hlabel).bindable hpart

theorem attributeName_proper (hscope : scope.Sound) (hname : IsQualified name.toList)
    (hbinding : ¬ (boundPrefix? name).isSome = true) (h : scope.attributeName name = .ok expanded) :
    Proper expanded ∧ expanded ≠ "xmlns" := by
  unfold attributeName at h
  rcases splitName_cases hname with ⟨hsimple, hsplit⟩ | ⟨label, part, hsplit, hlabel, hpart⟩
  · rw [hsplit] at h
    cases h
    refine ⟨.simple hsimple, ?_⟩
    rintro rfl
    rw [boundPrefix?, hsplit] at hbinding
    exact hbinding rfl
  · rw [hsplit] at h
    dsimp only at h
    split at h
    · cases h
    · rename_i uri huri
      cases h
      refine ⟨.within (binds_of_uri? hscope huri hlabel).bindable hpart, ?_⟩
      exact expand_ne_simple isSimpleName_xmlns

theorem attributes_sound {pairs : List (String × String)} {entries : List (String × String)}
    (hscope : scope.Sound)
    (hpairs : ∀ pair ∈ pairs, IsQualified pair.1.toList ∧ AllLegal pair.2.toList)
    (h : attributes scope pairs = .ok entries) :
    (∀ entry ∈ entries, (Proper entry.1 ∧ entry.1 ≠ "xmlns") ∧ AllLegal entry.2.toList) ∧
      (entries.map (·.1)).Nodup := by
  induction pairs generalizing entries with
  | nil =>
      cases h
      exact ⟨List.forall_mem_nil _, List.nodup_nil⟩
  | cons pair rest ih =>
      obtain ⟨name, value⟩ := pair
      obtain ⟨⟨hname, hvalue⟩, hrest⟩ := List.forall_mem_cons.mp hpairs
      rw [attributes] at h
      split at h
      · exact ih hrest h
      · rename_i hbinding
        split at h
        · cases h
        · rename_i expanded hexpanded
          split at h
          · cases h
          · rename_i more hmore
            obtain ⟨hentries, hnodup⟩ := ih hrest hmore
            split at h
            · cases h
            · rename_i hfresh
              cases h
              have hnames := attributeName_proper hscope hname hbinding hexpanded
              refine ⟨List.forall_mem_cons.mpr ⟨⟨hnames, hvalue⟩, hentries⟩, ?_⟩
              refine List.nodup_cons.mpr ⟨fun hmem => hfresh ?_, hnodup⟩
              obtain ⟨entry, hentry, heq⟩ := List.mem_map.mp hmem
              exact List.any_eq_true.mpr ⟨entry, hentry, by simpa using heq⟩

end Scope

/-- Resolving the prefixes in sound items gives sound nodes. -/
theorem resolve_sound {scope : Scope} {items : List Item} {resolved : Resolved}
    (hscope : scope.Sound) (hitems : ∀ item ∈ items, item.Sound)
    (h : resolve scope items = .ok resolved) :
    AllLegal resolved.lead ∧ (∀ node ∈ resolved.nodes, ∀ n, node.Encloses n → n.Sound) ∧
      Scope.Sound resolved.bindings := by
  fun_induction resolve scope items generalizing resolved with
  | case1 =>
      cases h
      exact ⟨allLegal_nil, List.forall_mem_nil _, List.forall_mem_nil _⟩
  | case3 scope cs rest after hafter ih =>
      cases h
      obtain ⟨htext, hrest⟩ := List.forall_mem_cons.mp hitems
      obtain ⟨hlead, hnodes, hbindings⟩ := ih hscope hrest hafter
      cases htext with
      | text hcs => exact ⟨allLegal_append.mpr ⟨hcs, hlead⟩, hnodes, hbindings⟩
  | case9 scope name attributes content rest bound hbound =>
      rename_i name' attributes' hattributes hname inside hinside after hafter node ihInside ih
      cases h
      obtain ⟨hitem, hrest⟩ := List.forall_mem_cons.mp hitems
      cases hitem with
      | element hqualified hpairs hcontent =>
        have hbound := Scope.bindings_sound hpairs hbound
        have hinner : Scope.Sound (bound.reverse ++ scope) := fun entry hentry => by
          rcases List.mem_append.mp hentry with hentry | hentry
          · exact hbound entry (List.mem_reverse.mp hentry)
          · exact hscope entry hentry
        obtain ⟨htext, hchildren, hbindings⟩ := ihInside hinner hcontent hinside
        obtain ⟨htail, hnodes, hbindings'⟩ := ih hscope hrest hafter
        obtain ⟨hentries, hnodup⟩ := Scope.attributes_sound hinner hpairs hattributes
        have hproper := Scope.elementName_proper hinner (by simpa using hqualified) hname
        refine ⟨allLegal_nil, List.forall_mem_cons.mpr ⟨fun n hn => ?_, hnodes⟩, ?_⟩
        · cases hn with
          | self =>
              refine ⟨⟨hproper, fun key hkey => ?_, hnodup⟩, htext, htail, fun entry hentry => ?_⟩
              · obtain ⟨entry, hentry, rfl⟩ := List.mem_map.mp hkey
                exact (hentries entry hentry).1
              · exact (hentries entry hentry).2
          | child mem encloses => exact hchildren _ mem n encloses
        · intro entry hentry
          rcases List.mem_append.mp hentry with hentry | hentry
          · rcases List.mem_append.mp hentry with hentry | hentry
            · exact hbound entry hentry
            · exact hbindings entry hentry
          · exact hbindings' entry hentry
  | _ => cases h

/-- Nothing follows what stands alone. -/
theorem tail_of_resolve {scope : Scope} {item : Item} {resolved : Resolved}
    (h : resolve scope [item] = .ok resolved) : ∀ node ∈ resolved.nodes, node.tail = [] := by
  cases item with
  | text cs =>
      rw [resolve, resolve] at h
      cases h
      exact List.forall_mem_nil _
  | element name attributes content =>
      rw [resolve] at h
      split at h
      · cases h
      · dsimp only at h
        split at h
        · cases h
        · cases h
        · split at h
          · cases h
          · rw [resolve] at h
            cases h
            exact List.forall_mem_cons.mpr ⟨rfl, List.forall_mem_nil _⟩

/-! ## Documents -/

namespace Source

theorem prolog_sound {cs rest : List Char} {d : Declarations}
    (h : prolog cs = .ok (d, rest)) : d.Sound ∧ rest ⊆ cs := by
  unfold prolog at h
  split at h
  · cases h
    exact ⟨Declarations.sound_default, List.Subset.refl _⟩
  · rename_i after hle hopen
    split at h
    · split at h
      · cases h
      · rename_i inside last hle' huntil
        split at h
        · cases h
        · cases h
          exact ⟨⟨List.forall_mem_nil _, List.forall_mem_nil _⟩,
            fun e he => after?_subset hopen ((until?_subset huntil).2 he)⟩
    · cases h
      exact ⟨Declarations.sound_default, List.Subset.refl _⟩

theorem skipMisc_subset {cs : List Char} {rest : Rest cs} (h : skipMisc cs = .ok rest) :
    rest.1 ⊆ cs := by
  fun_induction skipMisc cs with
  | case3 cs body hbody hskip inside hle hopen after hle' hcomment hlt last hle'' hlast ih =>
      cases h
      exact fun e he => Item.skipSpace_eq_subset hskip (after?_subset hopen
        (comment_subset hcomment (ih hlast he)))
  | case7 cs body hbody hskip inside hle hopen hnone after hle' hinstruction hlt last hle'' hlast
      ih =>
      cases h
      exact fun e he => Item.skipSpace_eq_subset hskip (after?_subset hopen
        (instruction_subset hinstruction (ih hlast he)))
  | case9 cs body hbody hskip _ _ =>
      cases h
      exact Item.skipSpace_eq_subset hskip
  | _ => cases h

theorem documentType_sound {d d' : Declarations} {cs rest : List Char} (hd : d.Sound)
    (hcs : AllLegal cs) (h : documentType d cs = .ok (d', rest)) : d'.Sound ∧ rest ⊆ cs := by
  unfold documentType at h
  split at h
  · cases h
  · rename_i body hle hmisc
    have hbody := skipMisc_subset hmisc
    split at h
    · cases h
      exact ⟨hd, hbody⟩
    · rename_i inside hle' hopen
      have hinside : inside ⊆ cs := fun e he => hbody (after?_subset hopen he)
      split at h
      · cases h
      · rename_i named after hlt hdoctype
        obtain ⟨hnamed, hafter⟩ := Declarations.doctype_sound hd (hcs.subset hinside) hdoctype
        split at h
        · cases h
        · rename_i last hle'' hlast
          cases h
          exact ⟨hnamed, fun e he => hinside (hafter (skipMisc_subset hlast he))⟩

theorem rootItem_sound {d : Declarations} {cs : List Char} {item : Item} (hd : d.Sound)
    (hcs : AllLegal cs) (h : rootItem d cs = .ok item) :
    item.Sound := by
  unfold rootItem at h
  split at h
  · cases h
  · rename_i body hlt hopen
    split at h
    · cases h
    · rename_i item' after hlt' helement
      have hsound := (Item.readsSound hd.rules d.entities body hd.entities
        (hcs.subset (afterChar?_subset hopen))).element helement
      split at h <;> cases h
      exact hsound.1

/-- Every name of a document that has been read can be spelled, every character may stand in a
document, and nothing follows the root. -/
theorem sound_of_ofText {text : String} {source : Source} (h : ofText text = .ok source) :
    (∀ n, source.root.Encloses n → n.Sound) ∧ source.root.tail = [] ∧
      Scope.Sound source.bindings := by
  unfold ofText at h
  dsimp only at h
  split at h
  · cases h
  · rename_i hlegal
    have hcs : AllLegal (normalizeLines (dropMark text.toList)) := by simpa [AllLegal] using hlegal
    split at h
    · cases h
    · rename_i d rest hprolog
      obtain ⟨hd, hrest⟩ := prolog_sound hprolog
      split at h
      · cases h
      · rename_i d' body hdoctype
        obtain ⟨hd', hbody⟩ := documentType_sound hd (hcs.subset hrest) hdoctype
        split at h
        · cases h
        · rename_i item hitem
          have hsound := rootItem_sound hd' ((hcs.subset hrest).subset hbody) hitem
          split at h
          · cases h
          · rename_i resolved hresolved
            have hitems : ∀ item' ∈ [item], item'.Sound := by simpa using hsound
            obtain ⟨-, hnodes, hbindings⟩ := resolve_sound Scope.sound_initial hitems hresolved
            split at h
            · rename_i root others hroots
              cases h
              have hroot : root ∈ resolved.nodes := by
                rw [hroots]
                exact List.mem_cons_self
              exact ⟨hnodes root hroot, tail_of_resolve hresolved root hroot, hbindings⟩
            · cases h

end Source

end Cuesheet.Xml
