import Cuesheet.Proofs.Xml.Taken
import Cuesheet.Proofs.Data.Entries
import Cuesheet.Xml.Doctype
import Mathlib.Tactic.SplitIfs

/-!
# What a document type declares

The declarations of a document type are `Sound`: what stands in the text of an entity and in the
default value of an attribute may stand in a document, and the attributes that have defaults are
named by names. Reading a document type makes sound declarations out of sound ones
(`doctype_sound`), as long as its own text may stand in a document.
-/

namespace Cuesheet.Xml

/-! ## Entities -/

/-- The texts of entities may stand in a document. -/
def Entities.Sound (entities : Entities) : Prop := ∀ entry ∈ entities.texts, AllLegal entry.2

namespace Entities

variable {entities : Entities} {cs value : List Char}

theorem enter?_sound (hentities : entities.Sound) {name : String} {text : List Char}
    {inner : { inner : Entities // inner.texts.length < entities.texts.length }}
    (h : entities.enter? name = .ok (some (text, inner))) : AllLegal text ∧ inner.1.Sound := by
  rw [enter?] at h
  split at h
  · cases h
  · split at h
    · cases h
    · rename_i found hfound
      cases h
      refine ⟨hentities _ (Entries.mem_of_value? hfound), fun entry hentry => ?_⟩
      exact hentities entry (List.mem_of_mem_filter hentry)

theorem ok_of_map {α β : Type} {f : α → β} {r : Except Fault α} {b : β} (h : r.map f = .ok b) :
    ∃ a, r = .ok a ∧ f a = b := by
  cases r with
  | error fault => cases h
  | ok a => exact ⟨a, rfl, Except.ok.inj h⟩

/-- The value of an attribute holds characters of its text, of entities and references, and
blanks. -/
theorem attributeValue_legal (hentities : entities.Sound) (hcs : AllLegal cs)
    (h : entities.attributeValue cs = .ok value) : AllLegal value := by
  fun_induction attributeValue entities cs generalizing value with
  | case1 => cases h; exact allLegal_nil
  | case2 entities c rest hspace ih =>
      obtain ⟨more, hmore, rfl⟩ := ok_of_map h
      exact allLegal_cons.mpr ⟨by decide, ih hentities (allLegal_cons.mp hcs).2 hmore⟩
  | case3 => cases h
  | case4 => cases h
  | case5 entities c rest _ _ _ ch rest' hle href ih =>
      obtain ⟨hsub, hlegal⟩ := reference_taken href
      obtain ⟨more, hmore, rfl⟩ := ok_of_map h
      exact allLegal_cons.mpr
        ⟨hlegal ch rfl, ih hentities ((allLegal_cons.mp hcs).2.subset hsub) hmore⟩
  | case6 => cases h
  | case7 entities c rest _ _ _ name rest' hle href henter hlenient ih =>
      exact ih hentities ((allLegal_cons.mp hcs).2.subset (reference_taken href).1) h
  | case8 => cases h
  | case9 => cases h
  | case10 entities c rest _ _ _ name rest' hle href text inner hlt henter value' hvalue ihInner
      ih =>
      obtain ⟨htext, hinner⟩ := enter?_sound hentities henter
      obtain ⟨more, hmore, rfl⟩ := ok_of_map h
      refine allLegal_append.mpr ⟨ihInner hinner htext hvalue, ?_⟩
      exact ih hentities ((allLegal_cons.mp hcs).2.subset (reference_taken href).1) hmore
  | case11 entities c rest _ _ _ ih =>
      obtain ⟨hc, hrest⟩ := allLegal_cons.mp hcs
      obtain ⟨more, hmore, rfl⟩ := ok_of_map h
      exact allLegal_cons.mpr ⟨hc, ih hentities hrest hmore⟩

theorem declaredText_legal (hcs : AllLegal cs) (h : declaredText cs = .ok value) :
    AllLegal value := by
  fun_induction declaredText cs generalizing value with
  | case1 => cases h; exact allLegal_nil
  | case2 => cases h
  | case3 => cases h
  | case4 c rest _ hamp name rest' hle href ih =>
      obtain ⟨hc, hrest⟩ := allLegal_cons.mp hcs
      obtain ⟨more, hmore, rfl⟩ := ok_of_map h
      refine allLegal_cons.mpr ⟨by decide, allLegal_append.mpr ⟨?_, ?_⟩⟩
      · exact hrest.subset (List.take_subset _ _)
      · exact ih (hrest.subset (reference_taken href).1) hmore
  | case5 c rest _ hamp ch rest' hle href =>
      rename_i hnamed ih
      obtain ⟨hc, hrest⟩ := allLegal_cons.mp hcs
      obtain ⟨more, hmore, rfl⟩ := ok_of_map h
      refine allLegal_cons.mpr ⟨by decide, allLegal_append.mpr ⟨?_, ?_⟩⟩
      · exact hrest.subset (List.take_subset _ _)
      · exact ih (hrest.subset (reference_taken href).1) hmore
  | case6 c rest _ hamp ch rest' hle href =>
      rename_i hnamed ih
      obtain ⟨hsub, hlegal⟩ := reference_taken href
      obtain ⟨more, hmore, rfl⟩ := ok_of_map h
      exact allLegal_cons.mpr ⟨hlegal ch rfl, ih ((allLegal_cons.mp hcs).2.subset hsub) hmore⟩
  | case7 c rest _ _ ih =>
      obtain ⟨hc, hrest⟩ := allLegal_cons.mp hcs
      obtain ⟨more, hmore, rfl⟩ := ok_of_map h
      exact allLegal_cons.mpr ⟨hc, ih hrest hmore⟩

end Entities

theorem collapseBlanks_legal {pending : Bool} {cs : List Char} (h : AllLegal cs) :
    AllLegal (collapseBlanks pending cs) := by
  have hblank : isLegal ' ' = true := by decide
  induction cs generalizing pending with
  | nil => exact allLegal_nil
  | cons c rest ih =>
      obtain ⟨hc, hrest⟩ := allLegal_cons.mp h
      rw [collapseBlanks]
      split
      · exact ih hrest
      · refine allLegal_append.mpr ⟨?_, ih hrest⟩
        split <;> simp [allLegal_cons, allLegal_nil, hc, hblank]

theorem tokenValue_legal {cs : List Char} (h : AllLegal cs) : AllLegal (tokenValue cs) :=
  collapseBlanks_legal (h.subset (dropWhile_subset _ _))

/-! ## The parts of a declaration -/

namespace Declarations

variable {cs : List Char} {d d' : Declarations}

/-- What is quoted may stand in a document. -/
def Part.Sound (p : Part) : Prop := ∀ literal, p = .literal literal → AllLegal literal

theorem Part.sound_word (word : List Char) : (Part.word word).Sound := nofun

theorem Part.sound_mark (c : Char) : (Part.mark c).Sound := nofun

theorem Part.sound_times (c : Char) : (Part.times c).Sound := nofun

theorem part_sound {p : Part} {rest : { rest : List Char // rest.length < cs.length }}
    (hcs : AllLegal cs) (h : part cs = .ok (p, rest)) : p.Sound ∧ rest.1 ⊆ cs := by
  cases cs with
  | nil => cases h
  | cons c tail =>
      have hword : tail.dropWhile isWordChar ⊆ c :: tail :=
        List.subset_cons_of_subset _ (dropWhile_subset _ _)
      have htail : tail ⊆ c :: tail := List.subset_cons_self _ _
      simp only [part] at h
      split at h
      · cases h; exact ⟨Part.sound_mark c, htail⟩
      split at h
      · split at h
        · cases h; exact ⟨Part.sound_mark c, htail⟩
        · cases h
      split at h
      · split at h
        · cases h; exact ⟨Part.sound_mark c, htail⟩
        · cases h
      split at h
      · split at h
        · cases h; exact ⟨Part.sound_word _, hword⟩
        · cases h
      split at h
      · split at h
        · cases h; exact ⟨Part.sound_word _, hword⟩
        · cases h
      split at h
      · cases h
      · rename_i value after hlt hquoted
        obtain ⟨hvalue, hafter⟩ := quotedValue_taken hquoted
        split at h
        · cases h
          refine ⟨fun literal heq => ?_, hafter⟩
          cases heq
          exact hcs.subset hvalue
        · cases h

theorem Part.join_sound {p : Part} {glued : Bool} {ps joined : List Part} (hp : p.Sound)
    (hps : ∀ q ∈ ps, q.Sound) (h : p.join glued ps = .ok joined) : ∀ q ∈ joined, q.Sound := by
  have hall : ∀ q ∈ p :: ps, q.Sound := List.forall_mem_cons.mpr ⟨hp, hps⟩
  unfold Part.join at h
  dsimp only at h
  split at h
  · rename_i c rest
    split_ifs at h
    · cases h
      obtain ⟨-, hrest⟩ := List.forall_mem_cons.mp hps
      exact List.forall_mem_cons.mpr ⟨hp, List.forall_mem_cons.mpr ⟨Part.sound_times c, hrest⟩⟩
    · cases h
      exact hall
  · cases h
    exact hall

theorem parts_sound {ps : List Part} {rest : { rest : List Char // rest.length < cs.length }}
    (hcs : AllLegal cs) (h : parts cs = .ok (ps, rest)) : (∀ p ∈ ps, p.Sound) ∧ rest.1 ⊆ cs := by
  fun_induction parts cs generalizing ps with
  | case1 => cases h
  | case2 c tail _ =>
      cases h
      exact ⟨nofun, List.subset_cons_self _ _⟩
  | case3 => cases h
  | case4 c tail _ _ ps' after hlt hparts ih =>
      cases h
      obtain ⟨hps, hsub⟩ := ih (allLegal_cons.mp hcs).2 hparts
      exact ⟨hps, List.subset_cons_of_subset _ hsub⟩
  | case5 => cases h
  | case6 => cases h
  | case7 => cases h
  | case8 c tail _ _ p after hlt hpart ps' after' hlt' hparts joined hjoin ih =>
      cases h
      obtain ⟨hp, hsub⟩ := part_sound hcs hpart
      obtain ⟨hps, hsub'⟩ := ih (hcs.subset hsub) hparts
      exact ⟨Part.join_sound hp hps hjoin, fun e he => hsub (hsub' he)⟩

theorem isQualified_of_isQualifiedName {name : List Char} (h : isQualifiedName name = true) :
    IsQualified name := by
  unfold isQualifiedName at h
  split at h
  · rename_i name' hlt hread
    obtain ⟨hname, heq⟩ := qualifiedName_taken hread
    rw [heq]
    simpa using hname
  · cases h

/-! ## Declarations -/

/-- A rule for an attribute gives it a name and a value that may stand in a document. -/
structure RuleSound (rule : AttributeRule) : Prop where
  name : IsQualified rule.name.toList
  default : ∀ value, rule.default = some value → AllLegal value

/-- The rules for the attributes of every element are sound. -/
def RulesSound (rules : Entries String (List AttributeRule)) : Prop :=
  ∀ entry ∈ rules, ∀ rule ∈ entry.2, RuleSound rule

structure Sound (d : Declarations) : Prop where
  entities : d.entities.Sound
  rules : RulesSound d.rules

theorem sound_default : Sound {} := ⟨nofun, nofun⟩

theorem mem_put {α β : Type} [BEq α] {entries : Entries α β} {key : α} {value : β}
    {entry : α × β} (h : entry ∈ entries.put key value) : entry ∈ entries ∨ entry.2 = value := by
  induction entries with
  | nil => exact .inr (by rw [List.mem_singleton.mp h])
  | cons first rest ih =>
      rw [Entries.put] at h
      split at h
      · rcases List.mem_cons.mp h with rfl | h
        · exact .inr rfl
        · exact .inl (List.mem_cons_of_mem _ h)
      · rcases List.mem_cons.mp h with rfl | h
        · exact .inl List.mem_cons_self
        · exact (ih h).imp_left (List.mem_cons_of_mem _)

theorem rules_value? {rules : Entries String (List AttributeRule)} (h : RulesSound rules)
    (element : String) : ∀ rule ∈ (rules.value? element).getD [], RuleSound rule := by
  cases hvalue : rules.value? element with
  | none => exact nofun
  | some own => exact h _ (Entries.mem_of_value? hvalue)

theorem addRule_sound {rules : Entries String (List AttributeRule)} (hrules : RulesSound rules)
    (element : String) {rule : AttributeRule} (hrule : RuleSound rule) :
    RulesSound (addRule rules element rule) := by
  unfold addRule
  dsimp only
  split
  · exact hrules
  · intro entry hentry
    rcases mem_put hentry with hentry | heq
    · exact hrules entry hentry
    · rw [heq]
      intro rule' hrule'
      rcases List.mem_append.mp hrule' with hold | hnew
      · exact rules_value? hrules element rule' hold
      · rw [List.mem_singleton.mp hnew]
        exact hrule

theorem declareEntity_sound (hd : d.Sound) (name : String) {text : Option (List Char)}
    (htext : ∀ cs, text = some cs → AllLegal cs) : (d.declareEntity name text).Sound := by
  unfold declareEntity
  dsimp only
  split
  · exact hd
  · cases text with
    | none => exact ⟨hd.entities, hd.rules⟩
    | some text =>
        refine ⟨fun entry hentry => ?_, hd.rules⟩
        rcases mem_put hentry with hentry | heq
        · exact hd.entities entry hentry
        · rw [heq]
          exact htext text rfl

theorem entity_sound {ps : List Part} (hd : d.Sound) (hps : ∀ p ∈ ps, p.Sound)
    (h : d.entity ps = .ok d') : d'.Sound := by
  have hnone : ∀ cs, (none : Option (List Char)) = some cs → AllLegal cs := nofun
  unfold entity at h
  split at h
  · rename_i name value
    split at h
    · obtain ⟨text, htext, rfl⟩ := Entities.ok_of_map h
      refine declareEntity_sound hd _ fun cs heq => ?_
      cases heq
      have hvalue : AllLegal value := hps (.literal value) (by simp) value rfl
      unfold entityText at htext
      split at htext
      · exact Entities.declaredText_legal hvalue htext
      · cases htext; exact allLegal_nil
    · cases h
  · split at h
    · obtain ⟨text, -, rfl⟩ := Entities.ok_of_map h
      exact hd
    · cases h
  · split at h
    · cases h; exact hd
    · cases h
  · split at h
    · cases h
    · split at h
      · cases h; exact declareEntity_sound hd _ hnone
      · split at h
        · cases h; exact declareEntity_sound hd _ hnone
        · cases h
      · cases h
  · cases h

theorem defaultValue_legal {value text : List Char} (hd : d.Sound) (hvalue : AllLegal value)
    (h : d.defaultValue value = .ok text) : AllLegal text := by
  unfold defaultValue at h
  split at h
  · exact Entities.attributeValue_legal hd.entities hvalue h
  · cases h; exact allLegal_nil

theorem attributeDefault_sound {ps rest : List Part} {value : Option (List Char)}
    (hd : d.Sound) (hps : ∀ p ∈ ps, p.Sound) (h : d.attributeDefault ps = .ok (value, rest)) :
    (∀ cs, value = some cs → AllLegal cs) ∧ ∀ p ∈ rest, p.Sound := by
  unfold attributeDefault at h
  split at h
  · cases h
    exact ⟨nofun, (List.forall_mem_cons.mp hps).2⟩
  · cases h
    exact ⟨nofun, (List.forall_mem_cons.mp hps).2⟩
  · rename_i literal rest'
    obtain ⟨-, hps⟩ := List.forall_mem_cons.mp hps
    obtain ⟨hliteral, hps⟩ := List.forall_mem_cons.mp hps
    obtain ⟨text, htext, heq⟩ := Entities.ok_of_map h
    cases heq
    refine ⟨fun cs hcs => ?_, hps⟩
    cases hcs
    exact defaultValue_legal hd (hliteral literal rfl) htext
  · rename_i literal rest'
    obtain ⟨hliteral, hps⟩ := List.forall_mem_cons.mp hps
    obtain ⟨text, htext, heq⟩ := Entities.ok_of_map h
    cases heq
    refine ⟨fun cs hcs => ?_, hps⟩
    cases hcs
    exact defaultValue_legal hd (hliteral literal rfl) htext
  · cases h

theorem enumeration_subset {isItem : List Char → Bool} {ps rest : List Part}
    (h : enumeration isItem ps = some rest) : rest ⊆ ps := by
  fun_induction enumeration isItem ps with
  | case1 cs more _ ih =>
      exact List.subset_cons_of_subset _ (List.subset_cons_of_subset _ (ih h))
  | case2 => cases h
  | case3 cs more _ =>
      cases h
      exact List.subset_cons_of_subset _ (List.subset_cons_self _ _)
  | case4 => cases h
  | case5 => cases h

theorem attributeType_subset {ps rest : List Part} {tokens : Bool}
    (h : attributeType ps = some (tokens, rest)) : rest ⊆ ps := by
  unfold attributeType at h
  split at h
  · cases h
    exact List.subset_cons_self _ _
  · obtain ⟨more, hmore, heq⟩ := Option.map_eq_some_iff.mp h
    cases heq
    exact List.subset_cons_of_subset _ (List.subset_cons_of_subset _ (enumeration_subset hmore))
  · obtain ⟨more, hmore, heq⟩ := Option.map_eq_some_iff.mp h
    cases heq
    exact List.subset_cons_of_subset _ (enumeration_subset hmore)
  · split at h
    · cases h
      exact List.subset_cons_self _ _
    · cases h
  · cases h

theorem attributes_sound {element : String} {count : Nat} {ps : List Part} (hd : d.Sound)
    (hps : ∀ p ∈ ps, p.Sound) (h : attributes element count d ps = .ok d') : d'.Sound := by
  fun_induction attributes element count d ps with
  | case1 => cases h; exact hd
  | case2 => cases h
  | case3 => cases h
  | case4 => cases h
  | case5 => cases h
  | case6 count d name rest hname tokens rest' htype value rest'' hdefault tokenized rule next ih =>
      obtain ⟨-, hps⟩ := List.forall_mem_cons.mp hps
      obtain ⟨hvalue, hrest⟩ := attributeDefault_sound hd
        (fun p hp => hps p (attributeType_subset htype hp)) hdefault
      have hrule : RuleSound rule := by
        refine ⟨?_, fun cs hcs => ?_⟩
        · rw [String.toList_ofList]
          exact isQualified_of_isQualifiedName (by simpa using hname)
        · cases tokens with
          | false => exact hvalue cs hcs
          | true =>
              obtain ⟨raw, hraw, rfl⟩ := Option.map_eq_some_iff.mp hcs
              exact tokenValue_legal (hvalue raw hraw)
      have hnext : next.Sound := by
        unfold next
        split
        · exact ⟨hd.entities, addRule_sound hd.rules element hrule⟩
        · exact hd
      exact ih hnext hrest h
  | case7 => cases h

theorem declaration_sound {keyword : List Char} {ps : List Part} (hd : d.Sound)
    (hps : ∀ p ∈ ps, p.Sound) (h : d.declaration keyword ps = .ok d') : d'.Sound := by
  unfold declaration at h
  split at h
  · exact entity_sound hd hps h
  · split at h
    · exact attributes_sound hd (List.forall_mem_cons.mp hps).2 h
    · cases h
  · split at h
    · cases h; exact hd
    · cases h
  · dsimp only at h
    split_ifs at h
    cases h
    exact hd
  · cases h

/-! ## Document types -/

theorem inner_sound {rest : { rest : List Char // rest.length < cs.length }} (hd : d.Sound)
    (hcs : AllLegal cs) (h : d.inner cs = .ok (d', rest)) : d'.Sound ∧ rest.1 ⊆ cs := by
  fun_induction inner d cs with
  | case2 d c tail _ =>
      cases h
      exact ⟨hd, List.subset_cons_self _ _⟩
  | case4 d c tail _ _ d'' after hlt hinner ih =>
      cases h
      obtain ⟨hsound, hsub⟩ := ih hd (allLegal_cons.mp hcs).2 hinner
      exact ⟨hsound, List.subset_cons_of_subset _ hsub⟩
  | case7 d c tail _ _ _ name rest' hle huntil =>
      rename_i hinner ih
      cases h
      have htail : rest' ⊆ c :: tail := List.subset_cons_of_subset _ (until?_subset huntil).2
      obtain ⟨hsound, hsub⟩ := ih ⟨hd.entities, hd.rules⟩ (hcs.subset htail) hinner
      exact ⟨hsound, fun e he => htail (hsub he)⟩
  | case11 d c tail _ _ _ body hbody hopen rest' hle hcomment hlt d'' after hlt' hinner ih =>
      cases h
      have htail : rest' ⊆ c :: tail := fun e he => after?_subset hopen (comment_subset hcomment he)
      obtain ⟨hsound, hsub⟩ := ih hd (hcs.subset htail) hinner
      exact ⟨hsound, fun e he => htail (hsub he)⟩
  | case15 d c tail _ _ _ body hbody hopen _ rest' hle hinstruction hlt d'' after hlt' hinner ih =>
      cases h
      have htail : rest' ⊆ c :: tail :=
        fun e he => after?_subset hopen (instruction_subset hinstruction he)
      obtain ⟨hsound, hsub⟩ := ih hd (hcs.subset htail) hinner
      exact ⟨hsound, fun e he => htail (hsub he)⟩
  | case21 d c tail _ _ _ body hbody hopen _ _ keyword body' hlt hkeyword _ ps rest' hlt' hparts
      next hdeclaration d'' after hafter hinner ih =>
      cases h
      have hbody' : body' ⊆ c :: tail :=
        fun e he => after?_subset hopen (simpleName_subset hkeyword he)
      obtain ⟨hps, hsub⟩ := parts_sound (hcs.subset hbody') hparts
      have htail : rest' ⊆ c :: tail := fun e he => hbody' (hsub he)
      obtain ⟨hsound, hsub'⟩ := ih (declaration_sound hd hps hdeclaration) (hcs.subset htail) hinner
      exact ⟨hsound, fun e he => htail (hsub' he)⟩
  | _ => cases h

theorem spacedLiteral_subset {value : List Char}
    {rest : { rest : List Char // rest.length < cs.length }}
    (h : spacedLiteral cs = .ok (value, rest)) : rest.1 ⊆ cs := by
  unfold spacedLiteral at h
  split at h
  · split at h
    · cases h
    · rename_i value' after hlt hquoted
      split at h
      · cases h
        exact fun e he => skipSpace_subset cs ((quotedValue_taken hquoted).2 he)
      · cases h
  · cases h

theorem externalSubset?_subset {outside : Bool} {rest : Rest cs}
    (h : externalSubset? cs = .ok (outside, rest)) : rest.1 ⊆ cs := by
  unfold externalSubset? at h
  split at h
  · rename_i after hle hsystem
    obtain ⟨⟨value, last, hlt⟩, hliteral, heq⟩ := Entities.ok_of_map h
    cases heq
    exact fun e he => after?_subset hsystem (spacedLiteral_subset hliteral he)
  · rename_i after hle _ hpublic
    split at h
    · cases h
    · rename_i id after' hlt hid
      split at h
      · obtain ⟨⟨value, last, hlt'⟩, hliteral, heq⟩ := Entities.ok_of_map h
        cases heq
        exact fun e he => after?_subset hpublic
          (spacedLiteral_subset hid (spacedLiteral_subset hliteral he))
      · cases h
  · cases h
    exact List.Subset.refl _

/-- Reading a document type keeps declarations sound. -/
theorem doctype_sound {rest : Rest cs} (hd : d.Sound) (hcs : AllLegal cs)
    (h : d.doctype cs = .ok (d', rest)) : d'.Sound ∧ rest.1 ⊆ cs := by
  unfold doctype at h
  split at h
  · cases h
  · dsimp only at h
    split at h
    · cases h
    · rename_i name rest1 hlt hname
      split at h
      · cases h
      · rename_i outside rest3 hle houtside
        have hsub : (skipSpace rest3).1 ⊆ cs := fun e he =>
          skipSpace_subset cs (qualifiedName_subset hname (skipSpace_subset rest1
            (externalSubset?_subset houtside (skipSpace_subset rest3 he))))
        split at h
        · split at h
          · cases h
          · rename_i rest5 hlt' hclose
            cases h
            exact ⟨⟨hd.entities, hd.rules⟩, fun e he => hsub (afterChar?_subset hclose he)⟩
        · rename_i rest5 hlt' hopen
          have hrest5 : rest5 ⊆ cs := fun e he => hsub (afterChar?_subset hopen he)
          split at h
          · cases h
          · rename_i d'' rest6 hrest hinner
            obtain ⟨hsound, hrest6⟩ :=
              inner_sound (by exact ⟨hd.entities, hd.rules⟩) (hcs.subset hrest5) hinner
            split at h
            · cases h
            · rename_i rest8 hlast hclose
              cases h
              exact ⟨hsound, fun e he =>
                hrest5 (hrest6 (skipSpace_subset rest6 (afterChar?_subset hclose he)))⟩

end Declarations

end Cuesheet.Xml
