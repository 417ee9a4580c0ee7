import Cuesheet.Proofs.Xml.Sound

/-!
# Markup with something behind it

A reader looks no further than what it reads, except for where a name or a run of spaces or of text
ends. So what it reads of a text it also reads with more behind the text, as long as something was
left of it. The readers of content and elements call each other, so each has a step lemma, and the
induction on the length of the text is made once (`Item.readsFollowed`).
-/

namespace Cuesheet.Xml

variable {cs before name rest : List Char}

theorem length_followed {cs rest : List Char} (h : rest.length ≤ cs.length) (more : List Char) :
    (rest ++ more).length ≤ (cs ++ more).length := by
  rw [List.length_append, List.length_append]
  omega

/-! ## Spaces and marks -/

theorem dropWhile_followed {p : Char → Bool} (h : cs.dropWhile p ≠ []) (more : List Char) :
    (cs ++ more).dropWhile p = cs.dropWhile p ++ more ∧
      (cs ++ more).takeWhile p = cs.takeWhile p := by
  have hends : (cs.takeWhile p).length ≠ cs.length := by
    intro hall
    have hsplit := congrArg List.length (List.takeWhile_append_dropWhile (p := p) (l := cs))
    rw [List.length_append, hall] at hsplit
    exact h (List.length_eq_zero_iff.mp (by omega))
  rw [List.dropWhile_append, List.takeWhile_append, if_neg hends,
    if_neg (mt List.isEmpty_iff.mp h)]
  exact ⟨rfl, rfl⟩

theorem skipSpace_followed {body : List Char} (h : (skipSpace cs).1 = body) (hbody : body ≠ [])
    (more : List Char) : ∃ hle, skipSpace (cs ++ more) = ⟨body ++ more, hle⟩ := by
  subst h
  exact ⟨length_followed (skipSpace cs).2 more, Subtype.ext (dropWhile_followed hbody more).1⟩

/-- Something stands behind spaces only if something stands there at all. -/
theorem ne_nil_of_skipSpace (h : (skipSpace cs).1 ≠ []) : cs ≠ [] := by
  rintro rfl
  exact h rfl

theorem eq_append_of_after? {mark : List Char} {rest : Rest cs}
    (h : after? mark cs = some rest) : cs = mark ++ rest.1 := by
  rw [after?] at h
  split at h
  · rename_i hmark
    cases h
    exact (List.prefix_iff_eq_append.mp (List.isPrefixOf_iff_prefix.mp hmark)).symm
  · cases h

theorem after?_followed {mark : List Char} {rest : Rest cs} (h : after? mark cs = some rest)
    (more : List Char) : ∃ hle, after? mark (cs ++ more) = some ⟨rest.1 ++ more, hle⟩ := by
  obtain ⟨rest, hle⟩ := rest
  obtain rfl : cs = mark ++ rest := eq_append_of_after? h
  rw [List.append_assoc]
  exact after?_append mark (rest ++ more)

theorem afterChar?_followed {c : Char} {rest : { rest : List Char // rest.length < cs.length }}
    (h : afterChar? c cs = some rest) (more : List Char) :
    ∃ hlt, afterChar? c (cs ++ more) = some ⟨rest.1 ++ more, hlt⟩ := by
  obtain ⟨rest, hlt⟩ := rest
  obtain rfl : cs = c :: rest := eq_cons_of_afterChar? h
  exact ⟨_, afterChar?_cons_self c (rest ++ more)⟩

/-- A character behind spaces is still behind them. -/
theorem afterChar?_skipSpace_followed {c : Char}
    {rest : { rest : List Char // rest.length < (skipSpace cs).1.length }}
    (h : afterChar? c (skipSpace cs).1 = some rest) (more : List Char) :
    ∃ hlt, afterChar? c (skipSpace (cs ++ more)).1 = some ⟨rest.1 ++ more, hlt⟩ := by
  have hskip : (skipSpace cs).1 ≠ [] := by
    rw [eq_cons_of_afterChar? h]
    exact List.cons_ne_nil _ _
  obtain ⟨hle, hskip'⟩ := skipSpace_followed rfl hskip more
  rw [hskip']
  exact afterChar?_followed h more

theorem length_le_of_until? {mark : List Char} {rest : Rest cs}
    (h : until? mark cs = some (before, rest)) : mark.length ≤ cs.length := by
  induction cs generalizing before with
  | nil =>
      rw [until?_nil] at h
      split at h
      · rename_i hmark
        rw [List.isEmpty_iff.mp hmark]
      · cases h
  | cons c tail ih =>
      rcases until?_cons_cases mark c tail with ⟨hhere, -⟩ | ⟨-, -, hnone⟩ |
        ⟨-, found, after, hle, hle', htail, -⟩
      · exact hhere.length_le
      · rw [hnone] at h
        cases h
      · exact Nat.le_succ_of_le (ih htail)

theorem until?_followed {mark : List Char} {rest : Rest cs}
    (h : until? mark cs = some (before, rest)) (more : List Char) :
    ∃ hle, until? mark (cs ++ more) = some (before, ⟨rest.1 ++ more, hle⟩) := by
  induction cs generalizing before with
  | nil =>
      rw [until?_nil] at h
      split at h
      · rename_i hmark
        cases h
        obtain rfl := List.isEmpty_iff.mp hmark
        refine ⟨Nat.le_refl _, ?_⟩
        cases more <;> rfl
      · cases h
  | cons c tail ih =>
      have hlength := length_le_of_until? h
      rw [List.cons_append]
      rcases until?_cons_cases mark c tail with ⟨hhere, hle, hread⟩ | ⟨-, -, hnone⟩ |
        ⟨hnot, found, after, hle, hle', htail, hlater⟩
      · rw [hread] at h
        cases h
        have hhere' : mark <+: c :: (tail ++ more) := List.prefix_append_of_prefix hhere
        have hdrop : (c :: (tail ++ more)).drop mark.length =
            (c :: tail).drop mark.length ++ more := List.drop_append_of_le_length hlength
        rcases until?_cons_cases mark c (tail ++ more) with ⟨-, hle', hread'⟩ | ⟨hnot, -⟩ |
          ⟨hnot, -⟩
        · simp only [hdrop] at hread'
          exact ⟨_, hread'⟩
        · exact absurd hhere' hnot
        · exact absurd hhere' hnot
      · rw [hnone] at h
        cases h
      · rw [hlater] at h
        cases h
        -- the mark is not here either: the text is long enough to tell
        have hnot' : ¬ mark <+: c :: (tail ++ more) := fun hhere =>
          hnot (List.prefix_of_prefix_length_le hhere ⟨more, rfl⟩ hlength)
        obtain ⟨hle'', htail'⟩ := ih htail
        rcases until?_cons_cases mark c (tail ++ more) with ⟨hhere, -⟩ | ⟨-, hnone, -⟩ |
          ⟨-, found', after', hle₁, hle₂, hfound, hread⟩
        · exact absurd hhere hnot'
        · rw [htail'] at hnone
          cases hnone
        · rw [htail'] at hfound
          cases hfound
          exact ⟨_, hread⟩

/-! ## Names -/

theorem simpleName_followed (h : Reads (simpleName cs) name rest) (hrest : rest ≠ [])
    (more : List Char) : Reads (simpleName (cs ++ more)) name (rest ++ more) := by
  obtain ⟨hlt, hread⟩ := h
  cases cs with
  | nil => cases hread
  | cons c tail =>
      rw [simpleName] at hread
      split at hread
      · rename_i hc
        cases hread
        obtain ⟨hdrop, htake⟩ := dropWhile_followed hrest more
        rw [List.cons_append, simpleName, if_pos hc]
        simp only [hdrop, htake]
        exact ⟨_, rfl⟩
      · cases hread

theorem qualifiedName_followed (h : Reads (qualifiedName cs) name rest) (hrest : rest ≠ [])
    (more : List Char) : Reads (qualifiedName (cs ++ more)) name (rest ++ more) := by
  obtain ⟨hlt, hread⟩ := h
  rw [qualifiedName] at hread
  split at hread
  · cases hread
  · rename_i first behind hlt' hfirst
    have hbehind : behind ≠ [] := by
      rintro rfl
      cases hread
      exact hrest rfl
    obtain ⟨hlt'', hfirst'⟩ := simpleName_followed ⟨hlt', hfirst⟩ hbehind more
    rw [Reads, qualifiedName, hfirst']
    dsimp only
    split at hread
    · rename_i hnone
      cases hread
      have hnone' : afterChar? ':' (rest ++ more) = none := by
        cases rest with
        | nil => exact absurd rfl hrest
        | cons c tail =>
            rw [afterChar?] at hnone
            split at hnone
            · cases hnone
            · rename_i hc
              rw [List.cons_append, afterChar?, if_neg hc]
      rw [hnone']
      exact ⟨_, rfl⟩
    · rename_i afterColon hlt₁ hcolon
      obtain ⟨hlt₂, hcolon'⟩ := afterChar?_followed hcolon more
      rw [hcolon']
      dsimp only
      split at hread
      · cases hread
      · rename_i second last hlt₃ hsecond
        cases hread
        obtain ⟨hlt₄, hsecond'⟩ := simpleName_followed ⟨hlt₃, hsecond⟩ hrest more
        rw [hsecond']
        exact ⟨_, rfl⟩

/-! ## What is not content -/

theorem comment_followed {rest : Rest cs} (h : comment cs = .ok rest) (more : List Char) :
    ∃ hle, comment (cs ++ more) = .ok ⟨rest.1 ++ more, hle⟩ := by
  rw [comment] at h
  split at h
  · cases h
  · rename_i before after hle huntil
    split at h
    · cases h
    · rename_i last hlt hlast
      cases h
      obtain ⟨hle', huntil'⟩ := until?_followed huntil more
      obtain ⟨hlt', hlast'⟩ := afterChar?_followed hlast more
      rw [comment, huntil']
      dsimp only at hlast' ⊢
      rw [hlast']
      exact ⟨_, rfl⟩

/-- A mark is not here if something else is. -/
theorem after?_of_ne {c d : Char} (h : c ≠ d) (mark rest : List Char) :
    after? (c :: mark) (d :: rest) = none := by
  simp [after?, h]

theorem instruction_followed {rest : Rest cs} (h : instruction cs = .ok rest) (more : List Char) :
    ∃ hle, instruction (cs ++ more) = .ok ⟨rest.1 ++ more, hle⟩ := by
  rw [instruction] at h
  split at h
  · cases h
  · rename_i target after hlt htarget
    split at h
    · cases h
    · rename_i hreserved
      have hafter : after ≠ [] := by
        rintro rfl
        cases h
      obtain ⟨hlt', htarget'⟩ := simpleName_followed ⟨hlt, htarget⟩ hafter more
      rw [instruction, htarget']
      dsimp only
      rw [if_neg hreserved]
      split at h
      · rename_i last hle hlast
        cases h
        obtain ⟨hle', hlast'⟩ := after?_followed hlast more
        rw [hlast']
        exact ⟨_, rfl⟩
      · split at h
        · rename_i hspace
          split at h
          · cases h
          · rename_i before last hle hlast
            cases h
            obtain ⟨hle', hlast'⟩ := until?_followed hlast more
            obtain ⟨c, tail, rfl⟩ := List.exists_cons_of_ne_nil hafter
            have hne : '?' ≠ c := by
              rintro rfl
              cases hspace
            have hnone : after? ['?', '>'] (c :: tail ++ more) = none := after?_of_ne hne _ _
            have hspace' : startsWithSpace (c :: tail ++ more) = true := hspace
            rw [hnone]
            dsimp only
            rw [if_pos hspace', hlast']
            exact ⟨_, rfl⟩
        · cases h

/-! ## References and values -/

theorem reference_followed {r : Reference} {rest : Rest cs} (h : reference cs = .ok (r, rest))
    (more : List Char) : ∃ hle, reference (cs ++ more) = .ok (r, ⟨rest.1 ++ more, hle⟩) := by
  rw [reference] at h
  split at h
  · cases h
  · rename_i body after huntil
    obtain ⟨hle, huntil'⟩ := until?_followed huntil more
    rw [reference, huntil']
    dsimp only
    cases hbody : Reference.ofBody body with
    | error fault => rw [hbody] at h; cases h
    | ok r' =>
        rw [hbody] at h
        cases h
        exact ⟨_, rfl⟩

theorem quotedValue_followed {value : List Char} (h : Reads (quotedValue cs) value rest)
    (more : List Char) : Reads (quotedValue (cs ++ more)) value (rest ++ more) := by
  obtain ⟨hlt, hread⟩ := h
  cases cs with
  | nil => cases hread
  | cons c tail =>
      rw [quotedValue] at hread
      split at hread
      · rename_i hquote
        split at hread
        · cases hread
        · rename_i value' after hle huntil
          cases hread
          obtain ⟨hle', huntil'⟩ := until?_followed huntil more
          rw [List.cons_append, quotedValue, if_pos hquote, huntil']
          exact ⟨_, rfl⟩
      · cases hread

namespace Item

variable {entities : Entities}

/-! ## Attributes -/

theorem tagEnd?_followed {tagEnd : TagEnd} {rest : Rest cs} (h : tagEnd? cs = some (tagEnd, rest))
    (more : List Char) : ∃ hle, tagEnd? (cs ++ more) = some (tagEnd, ⟨rest.1 ++ more, hle⟩) := by
  unfold tagEnd? at h
  split at h
  · rename_i after hempty
    cases h
    obtain ⟨hle, hempty'⟩ := after?_followed hempty more
    rw [tagEnd?, hempty']
    exact ⟨_, rfl⟩
  · rename_i after hempty hopened
    cases h
    obtain ⟨hle, hopened'⟩ := after?_followed hopened more
    have hcs := eq_append_of_after? hopened
    have hempty' : after? ['/', '>'] (cs ++ more) = none := by
      rw [hcs]
      exact after?_of_ne (by decide) _ _
    rw [tagEnd?, hempty', hopened']
    exact ⟨_, rfl⟩
  · cases h

theorem writtenAttribute_followed {found : List Char × List Char}
    (h : Reads (writtenAttribute cs) found rest) (more : List Char) :
    Reads (writtenAttribute (cs ++ more)) found (rest ++ more) := by
  obtain ⟨hlt, hread⟩ := h
  unfold writtenAttribute at hread
  split at hread
  · cases hread
  · rename_i name rest1 h1 hname
    dsimp only at hread
    split at hread
    · cases hread
    · rename_i rest3 h3 hequals
      split at hread
      · cases hread
      · rename_i raw rest5 h5 hquoted
        cases hread
        have hrest2 : (skipSpace rest1).1 ≠ [] := by
          rw [eq_cons_of_afterChar? hequals]
          exact List.cons_ne_nil _ _
        have hrest4 : (skipSpace rest3).1 ≠ [] := by
          intro hnil
          rw [hnil] at h5
          cases h5
        obtain ⟨h1', hname'⟩ :=
          qualifiedName_followed ⟨h1, hname⟩ (ne_nil_of_skipSpace hrest2) more
        obtain ⟨h3', hequals'⟩ := afterChar?_followed hequals more
        obtain ⟨h5', hquoted'⟩ := quotedValue_followed ⟨h5, hquoted⟩ more
        obtain ⟨hle2, hskip2⟩ := skipSpace_followed rfl hrest2 more
        obtain ⟨hle4, hskip4⟩ := skipSpace_followed rfl hrest4 more
        rw [writtenAttribute, hname']
        dsimp only
        rw [hskip2]
        dsimp only
        rw [hequals']
        dsimp only
        rw [hskip4]
        dsimp only
        rw [hquoted']
        exact ⟨_, rfl⟩

/-- Where a name is read stands a character that may begin one. -/
theorem exists_cons_of_qualifiedName
    {rest : { rest : List Char // rest.length < cs.length }}
    (h : qualifiedName cs = .ok (name, rest)) : ∃ c tail, cs = c :: tail ∧ isNameStart c = true := by
  obtain ⟨hname, hcs⟩ := qualifiedName_taken h
  obtain ⟨c, tail, rfl, hc⟩ := hname.exists_cons
  exact ⟨c, tail ++ rest.1, hcs, hc⟩

/-- Where an attribute is written a tag does not end, whatever follows. -/
theorem tagEnd?_of_writtenAttribute {found : List Char × List Char}
    (h : Reads (writtenAttribute cs) found rest) (more : List Char) :
    tagEnd? (cs ++ more) = none := by
  obtain ⟨hlt, hread⟩ := h
  unfold writtenAttribute at hread
  split at hread
  · cases hread
  · rename_i hname
    obtain ⟨c, tail, rfl, hc⟩ := exists_cons_of_qualifiedName hname
    have hclose : '>' ≠ c := (ne_of_isNameStart hc (isNameStart_mark (by decide))).symm
    have hslash : '/' ≠ c := (ne_of_isNameStart hc (isNameStart_mark (by decide))).symm
    rw [List.cons_append, tagEnd?, after?_of_ne hslash, after?_of_ne hclose]

theorem readAttributes_followed {rules : List AttributeRule} {pairs : List (String × String)}
    {tagEnd : TagEnd} {rest : Rest cs}
    (h : readAttributes entities rules cs = .ok (pairs, tagEnd, rest)) (behind : List Char) :
    ∃ hle, readAttributes entities rules (cs ++ behind) =
      .ok (pairs, tagEnd, ⟨rest.1 ++ behind, hle⟩) := by
  fun_induction readAttributes entities rules cs generalizing pairs tagEnd with
  | case1 cs body hbody hskip tagEnd' after hle htag =>
      cases h
      have hne : body ≠ [] := by
        rintro rfl
        cases htag
      obtain ⟨hbody', hskip'⟩ := skipSpace_followed (congrArg Subtype.val hskip) hne behind
      obtain ⟨hle', htag'⟩ := tagEnd?_followed htag behind
      rw [readAttributes, hskip']
      dsimp only
      rw [htag']
      exact ⟨_, rfl⟩
  | case7 cs body hbody hskip hnone hlength name raw after hlt hattribute value hvalue more tagEnd'
      after' hle' hmore =>
      rename_i hfresh ih
      cases h
      have hne : body ≠ [] := by
        rintro rfl
        cases hlt
      have hlength' : (body ++ behind).length ≠ (cs ++ behind).length := by
        rw [List.length_append, List.length_append]
        omega
      obtain ⟨hbody', hskip'⟩ := skipSpace_followed (congrArg Subtype.val hskip) hne behind
      obtain ⟨hlt', hattribute'⟩ := writtenAttribute_followed ⟨hlt, hattribute⟩ behind
      obtain ⟨hle'', hmore'⟩ := ih hmore
      rw [readAttributes, hskip']
      dsimp only
      rw [tagEnd?_of_writtenAttribute ⟨hlt, hattribute⟩ behind]
      dsimp only
      rw [if_neg hlength', hattribute']
      dsimp only
      rw [hvalue]
      dsimp only
      rw [hmore']
      dsimp only
      rw [if_neg hfresh]
      exact ⟨_, rfl⟩
  | _ => cases h

/-! ## Content and elements -/

variable {rules : Entries String (List AttributeRule)}

/-- What is read of a text, content or an element, is read of it with more behind it. -/
structure ReadsFollowed (entities : Entities) (rules : Entries String (List AttributeRule))
    (cs : List Char) : Prop where
  content : ∀ {items} {rest : Rest cs}, readContent entities rules cs = .ok (items, rest) →
    rest.1 ≠ [] → ∀ more, Reads (readContent entities rules (cs ++ more)) items (rest.1 ++ more)
  element : ∀ {item} {rest : { rest : List Char // rest.length < cs.length }},
    readElement entities rules cs = .ok (item, rest) →
      ∀ more, Reads (readElement entities rules (cs ++ more)) item (rest.1 ++ more)

/-- Where an element is read stands a character that may begin a name, whatever follows. -/
theorem exists_cons_of_readElement {item : Item}
    {rest : { rest : List Char // rest.length < cs.length }}
    (h : readElement entities rules cs = .ok (item, rest)) (more : List Char) :
    ∃ c tail, cs ++ more = c :: tail ∧ isNameStart c = true := by
  rw [readElement] at h
  split at h
  · cases h
  · rename_i hname
    obtain ⟨c, tail, rfl, hc⟩ := exists_cons_of_qualifiedName hname
    exact ⟨c, tail ++ more, rfl, hc⟩

theorem readElement_followed_step
    (ih : ∀ cs' : List Char, cs'.length < cs.length → ReadsFollowed entities rules cs')
    {item : Item} {rest : { rest : List Char // rest.length < cs.length }}
    (h : readElement entities rules cs = .ok (item, rest)) (more : List Char) :
    Reads (readElement entities rules (cs ++ more)) item (rest.1 ++ more) := by
  rw [readElement] at h
  split at h
  · cases h
  · rename_i name rest1 h1 hname
    dsimp only at h
    have hrest1 : rest1 ≠ [] := by
      rintro rfl
      rw [readAttributes] at h
      cases h
    obtain ⟨h1', hname'⟩ := qualifiedName_followed ⟨h1, hname⟩ hrest1 more
    rw [readElement, hname']
    dsimp only
    split at h
    · cases h
    · rename_i given rest2 h2 hattributes
      cases h
      obtain ⟨h2', hattributes'⟩ := readAttributes_followed hattributes more
      rw [hattributes']
      exact ⟨_, rfl⟩
    · rename_i given rest2 h2 hattributes
      obtain ⟨h2', hattributes'⟩ := readAttributes_followed hattributes more
      rw [hattributes']
      dsimp only
      split at h
      · cases h
      · rename_i items rest3 h3 hcontent
        split at h
        · cases h
        · rename_i rest4 h4 hclose
          have hrest3 : rest3 ≠ [] := by
            rw [eq_append_of_after? hclose]
            exact List.cons_ne_nil _ _
          obtain ⟨h3', hcontent'⟩ := (ih rest2 (by omega)).content hcontent hrest3 more
          obtain ⟨h4', hclose'⟩ := after?_followed hclose more
          rw [hcontent']
          dsimp only at hclose' ⊢
          rw [hclose']
          dsimp only
          split at h
          · cases h
          · rename_i rest5 h5 hlabel
            obtain ⟨h5', hlabel'⟩ := after?_followed hlabel more
            dsimp only at hlabel'
            rw [hlabel']
            dsimp only
            split at h
            · cases h
            · rename_i rest6 h6 hbracket
              cases h
              have hskip : (skipSpace rest5).1 ≠ [] := by
                rw [eq_cons_of_afterChar? hbracket]
                exact List.cons_ne_nil _ _
              obtain ⟨h6', hbracket'⟩ := afterChar?_skipSpace_followed hbracket more
              rw [hbracket']
              exact ⟨_, rfl⟩

/-- Reading content of nothing leaves nothing. -/
theorem ne_nil_of_readContent {items : List Item} {rest : Rest cs}
    (h : readContent entities rules cs = .ok (items, rest)) (hrest : rest.1 ≠ []) : cs ≠ [] := by
  rintro rfl
  exact hrest (List.eq_nil_of_length_eq_zero (Nat.le_zero.mp rest.2))

theorem plainRun_append_drop (cs : List Char) :
    plainRun cs ++ cs.drop (plainRun cs).length = cs :=
  List.prefix_iff_eq_append.mp (List.takeWhile_prefix _)

theorem plainRun_followed (h : cs.drop (plainRun cs).length ≠ []) (more : List Char) :
    plainRun (cs ++ more) = plainRun cs := by
  refine (dropWhile_followed (fun hnil => h ?_) more).2
  have hall : plainRun cs = cs := by
    have hsplit := List.takeWhile_append_dropWhile (p := fun c => c != '<' && c != '&') (l := cs)
    rwa [hnil, List.append_nil] at hsplit
  rw [hall, List.drop_length]

variable {items : List Item} {behind : List Char}

/-- Plain text is read up to the next tag or reference. -/
theorem reads_plain (cs : List Char) {c : Char} (hlt : c ≠ '<') (hamp : c ≠ '&')
    (hsection : holdsSectionEnd (c :: plainRun cs) ≠ true)
    (hbehind : cs = plainRun cs ++ behind)
    (hread : Reads (readContent entities rules behind) items rest) :
    Reads (readContent entities rules (c :: cs)) (.text (c :: plainRun cs) :: items) rest := by
  obtain rfl : cs.drop (plainRun cs).length = behind :=
    List.append_cancel_left ((plainRun_append_drop cs).trans hbehind)
  obtain ⟨hle, hread⟩ := hread
  rw [readContent.eq_8 _ _ _ _ (fun _ h _ => hlt h) (fun _ h _ => hlt h) (fun _ h _ => hlt h)
    (fun _ h _ => hlt h) hlt hamp, if_neg hsection, hread]
  exact ⟨_, rfl⟩

theorem readContent_followed_step
    (ih : ∀ cs' : List Char, cs'.length < cs.length → ReadsFollowed entities rules cs')
    {items : List Item} {rest : Rest cs} (h : readContent entities rules cs = .ok (items, rest))
    (hrest : rest.1 ≠ []) (more : List Char) :
    Reads (readContent entities rules (cs ++ more)) items (rest.1 ++ more) := by
  rw [readContent.eq_def] at h
  split at h
  · cases h
    exact absurd rfl hrest
  · cases h
    exact ⟨Nat.le_refl _, by rw [List.cons_append, List.cons_append, readContent]⟩
  · -- a comment
    rename_i body
    split at h
    · cases h
    · rename_i after hle hcomment
      split at h
      · cases h
      · rename_i items' last hle' hread
        cases h
        obtain ⟨_, hcomment'⟩ := comment_followed hcomment more
        obtain ⟨_, hread'⟩ :=
          (ih after (by simp only [List.length_cons]; omega)).content hread hrest more
        simp only [List.cons_append]
        rw [readContent, hcomment']
        dsimp only at hread' ⊢
        rw [hread']
        exact ⟨_, rfl⟩
  · -- a literal section
    rename_i body hbody
    split at h
    · cases h
    · rename_i inside hle hopen
      split at h
      · cases h
      · rename_i literal after hle' huntil
        split at h
        · cases h
        · rename_i items' last hle'' hread
          cases h
          obtain ⟨_, hopen'⟩ := after?_followed hopen more
          obtain ⟨_, huntil'⟩ := until?_followed huntil more
          obtain ⟨_, hread'⟩ :=
            (ih after (by simp only [List.length_cons]; omega)).content hread hrest more
          have hmark : ∀ more', body ++ more ≠ '-' :: '-' :: more' := by
            rw [eq_append_of_after? hopen]
            rintro more' heq
            cases heq
          simp only [List.cons_append]
          rw [readContent.eq_4 _ _ _ hmark, hopen']
          dsimp only at huntil' ⊢
          rw [huntil']
          dsimp only at hread' ⊢
          rw [hread']
          exact ⟨_, rfl⟩
  · -- a processing instruction
    rename_i body
    split at h
    · cases h
    · rename_i after hle hinstruction
      split at h
      · cases h
      · rename_i items' last hle' hread
        cases h
        obtain ⟨_, hinstruction'⟩ := instruction_followed hinstruction more
        obtain ⟨_, hread'⟩ :=
          (ih after (by simp only [List.length_cons]; omega)).content hread hrest more
        simp only [List.cons_append]
        rw [readContent, hinstruction']
        dsimp only at hread' ⊢
        rw [hread']
        exact ⟨_, rfl⟩
  · -- an element
    rename_i body hclose hcomment hmark hinstruction
    split at h
    · cases h
    · rename_i item after hlt helement
      split at h
      · cases h
      · rename_i items' last hle' hread
        cases h
        exact readContent_element (exists_cons_of_readElement helement more)
          ((ih body (Nat.lt_succ_self _)).element helement more)
          ((ih after (by simp only [List.length_cons]; omega)).content hread hrest more)
  · -- a reference
    rename_i body
    split at h
    · cases h
    · rename_i r after hle href
      obtain ⟨_, href'⟩ := reference_followed href more
      dsimp only at h
      split at h
      · cases h
      · rename_i replaced hreplaced
        split at h
        · cases h
        · rename_i items' last hle' hread
          cases h
          obtain ⟨_, hread'⟩ :=
            (ih after (by simp only [List.length_cons]; omega)).content hread hrest more
          simp only [List.cons_append]
          rw [readContent, href']
          dsimp only at hread' ⊢
          rw [hreplaced]
          dsimp only
          rw [hread']
          exact ⟨_, rfl⟩
  · -- plain text
    rename_i c body _ _ _ _ hlt hamp
    dsimp only at h
    split at h
    · cases h
    · rename_i hsection
      split at h
      · cases h
      · rename_i items' last hle hread
        cases h
        have hrun := plainRun_followed (ne_nil_of_readContent hread hrest) more
        have hdrop : (body.drop (plainRun body).length).length < (c :: body).length :=
          Nat.lt_succ_of_le (List.drop_sublist _ _).length_le
        have hplain := reads_plain (body ++ more) hlt hamp (hrun ▸ hsection)
          (by rw [hrun, ← List.append_assoc, plainRun_append_drop])
          ((ih _ hdrop).content hread hrest more)
        rwa [hrun] at hplain

theorem readsFollowed (entities : Entities) (rules : Entries String (List AttributeRule))
    (cs : List Char) : ReadsFollowed entities rules cs := by
  induction hlength : cs.length using Nat.strongRecOn generalizing cs with
  | ind n ih =>
      subst hlength
      have ih' : ∀ cs' : List Char, cs'.length < cs.length → ReadsFollowed entities rules cs' :=
        fun cs' hlt => ih cs'.length hlt cs' rfl
      exact ⟨fun h hrest more => readContent_followed_step ih' h hrest more,
        fun h more => readElement_followed_step ih' h more⟩

end Item

end Cuesheet.Xml
