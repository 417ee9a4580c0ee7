import Cuesheet.Proofs.Document.Writing
import Cuesheet.Xml.Scan

/-!
# Names, written and read

A name as it is written is simple or has a prefix (`IsQualified`); such a name is read off the
front of a text up to where it ends (`reads_qualifiedName`). A name in a tree is `Proper` if it is
simple, alone or in a namespace that can be bound.
-/

namespace Cuesheet.Xml

/-! ## Characters -/

/-- Characters that may all stand in a document. -/
def AllLegal (cs : List Char) : Prop := ∀ c ∈ cs, isLegal c = true

instance (cs : List Char) : Decidable (AllLegal cs) := List.decidableBAll _ cs

theorem allLegal_nil : AllLegal [] := nofun

theorem allLegal_cons {c : Char} {cs : List Char} :
    AllLegal (c :: cs) ↔ isLegal c = true ∧ AllLegal cs := List.forall_mem_cons

theorem allLegal_append {front rest : List Char} :
    AllLegal (front ++ rest) ↔ AllLegal front ∧ AllLegal rest := List.forall_mem_append

theorem allLegal_iff_all {cs : List Char} : AllLegal cs ↔ cs.all isLegal = true :=
  List.all_eq_true.symm

theorem AllLegal.subset {front rest : List Char} (h : AllLegal rest) (hsub : front ⊆ rest) :
    AllLegal front := fun c hc => h c (hsub hc)

theorem between_of_containsChar {ranges : Text.Ranges} {low high : Nat} {c : Char}
    (hranges : ∀ range ∈ ranges, low ≤ range.1 ∧ range.2 ≤ high)
    (h : ranges.containsChar c = true) : low ≤ c.toNat ∧ c.toNat ≤ high := by
  simp only [Text.Ranges.containsChar, Text.Ranges.contains, List.any_eq_true, Bool.and_eq_true,
    decide_eq_true_eq] at h
  obtain ⟨range, hmem, hlow, hhigh⟩ := h
  have := hranges range hmem
  omega

theorem isLegal_of_between {c : Char} (hlow : 0x20 ≤ c.toNat) (hhigh : c.toNat ≤ 0xFFFD) :
    isLegal c = true := by
  simp [isLegal, hlow, hhigh]

/-- Where the characters of names lie. -/
theorem nameRanges_between : (∀ range ∈ nameStartRanges, 65 ≤ range.1 ∧ range.2 ≤ 55203) ∧
    ∀ range ∈ nameRanges, 45 ≤ range.1 ∧ range.2 ≤ 55203 := by decide +kernel

/-- White space, and the marks of tags and of names that are qualified or expanded. -/
def marks : List Char := [' ', '\t', '\n', '\r', '<', '>', '/', '!', '?', '=', ':', '\x7b', '\x7d']

theorem marks_all : marks.all (fun c => !isNameStart c && !isNameChar c) = true := by decide +kernel

theorem isNameStart_mark {c : Char} (hc : c ∈ marks) : isNameStart c = false := by
  have hmark := List.all_eq_true.mp marks_all c hc
  rw [Bool.and_eq_true, Bool.not_eq_true'] at hmark
  exact hmark.1

theorem isNameChar_mark {c : Char} (hc : c ∈ marks) : isNameChar c = false := by
  have hmark := List.all_eq_true.mp marks_all c hc
  rw [Bool.and_eq_true, Bool.not_eq_true', Bool.not_eq_true'] at hmark
  exact hmark.2

theorem isLegal_of_isNameChar {c : Char} (h : isNameChar c = true) : isLegal c = true := by
  obtain ⟨hlow, hhigh⟩ := between_of_containsChar nameRanges_between.2 h
  exact isLegal_of_between (by omega) (by omega)

theorem isLegal_of_isNameStart {c : Char} (h : isNameStart c = true) : isLegal c = true := by
  obtain ⟨hlow, hhigh⟩ := between_of_containsChar nameRanges_between.1 h
  exact isLegal_of_between (by omega) (by omega)

/-- A character that is not part of any name. -/
theorem ne_of_isNameStart {c d : Char} (h : isNameStart c = true) (hd : isNameStart d = false) :
    c ≠ d := by
  rintro rfl
  rw [h] at hd
  cases hd

/-! ## Simple names -/

theorem isSimpleName_cons {c : Char} {rest : List Char} :
    isSimpleName (c :: rest) = true ↔ isNameStart c = true ∧ ∀ d ∈ rest, isNameChar d = true := by
  simp [isSimpleName]

theorem exists_cons_of_isSimpleName {cs : List Char} (h : isSimpleName cs = true) :
    ∃ c rest, cs = c :: rest ∧ isNameStart c = true ∧ ∀ d ∈ rest, isNameChar d = true := by
  cases cs with
  | nil => cases h
  | cons c rest => exact ⟨c, rest, rfl, isSimpleName_cons.mp h⟩

/-- No character stands in a simple name that can neither begin nor continue one. -/
theorem notMem_of_isSimpleName {cs : List Char} (h : isSimpleName cs = true) {d : Char}
    (hstart : isNameStart d = false) (hchar : isNameChar d = false) : d ∉ cs := by
  obtain ⟨c, rest, rfl, hc, hrest⟩ := exists_cons_of_isSimpleName h
  intro hmem
  rcases List.mem_cons.mp hmem with rfl | hmem
  · rw [hc] at hstart; cases hstart
  · rw [hrest d hmem] at hchar; cases hchar

theorem allLegal_of_isSimpleName {cs : List Char} (h : isSimpleName cs = true) : AllLegal cs := by
  obtain ⟨c, rest, rfl, hc, hrest⟩ := exists_cons_of_isSimpleName h
  exact allLegal_cons.mpr
    ⟨isLegal_of_isNameStart hc, fun d hd => isLegal_of_isNameChar (hrest d hd)⟩

theorem mark_notMem {cs : List Char} (h : isSimpleName cs = true) {c : Char}
    (hc : c ∈ marks) : c ∉ cs :=
  notMem_of_isSimpleName h (isNameStart_mark hc) (isNameChar_mark hc)

theorem colon_notMem {cs : List Char} (h : isSimpleName cs = true) : ':' ∉ cs :=
  mark_notMem h (by decide)

theorem brace_notMem {cs : List Char} (h : isSimpleName cs = true) : '\x7d' ∉ cs :=
  mark_notMem h (by decide)

/-! ## Reading names -/

/-- A reader that succeeds with a result and a rest. -/
def Reads {α : Type} {p : List Char → Prop} (r : Except Fault (α × { rest : List Char // p rest }))
    (a : α) (rest : List Char) : Prop :=
  ∃ h, r = .ok (a, ⟨rest, h⟩)

/-- Where a name ends: no part of a name follows, and no colon. -/
def EndsName (rest : List Char) : Prop :=
  ∀ c, rest.head? = some c → isNameChar c = false ∧ c ≠ ':'

theorem endsName_cons {c : Char} {rest : List Char} (h : isNameChar c = false) (hcolon : c ≠ ':') :
    EndsName (c :: rest) := by
  rintro d ⟨⟩
  exact ⟨h, hcolon⟩

theorem takeWhile_append_of_all {p : Char → Bool} {cs rest : List Char} (hcs : ∀ c ∈ cs, p c = true)
    (hrest : ∀ c, rest.head? = some c → p c = false) :
    (cs ++ rest).takeWhile p = cs ∧ (cs ++ rest).dropWhile p = rest := by
  rw [List.takeWhile_append_of_pos hcs, List.dropWhile_append_of_pos hcs]
  cases rest with
  | nil => simp
  | cons c rest => simp [hrest c rfl]

theorem reads_simpleName {cs rest : List Char} (h : isSimpleName cs = true)
    (hrest : ∀ c, rest.head? = some c → isNameChar c = false) :
    Reads (simpleName (cs ++ rest)) cs rest := by
  obtain ⟨c, more, rfl, hc, hmore⟩ := exists_cons_of_isSimpleName h
  obtain ⟨htake, hdrop⟩ := takeWhile_append_of_all hmore hrest
  have hlt : rest.length < (c :: more ++ rest).length := by
    simp only [List.cons_append, List.length_cons, List.length_append]
    omega
  refine ⟨hlt, ?_⟩
  simp only [List.cons_append, simpleName, if_pos hc, htake, hdrop]

theorem afterChar?_cons_self (c : Char) (rest : List Char) :
    afterChar? c (c :: rest) = some ⟨rest, Text.length_lt_cons c rest⟩ := by
  simp [afterChar?]

/-- A name as it is written: simple, or two simple names with a colon between them. -/
def IsQualified (cs : List Char) : Prop :=
  isSimpleName cs = true ∨
    ∃ label part, cs = label ++ ':' :: part ∧ isSimpleName label = true ∧ isSimpleName part = true

theorem IsQualified.exists_cons {cs : List Char} (h : IsQualified cs) :
    ∃ c rest, cs = c :: rest ∧ isNameStart c = true := by
  rcases h with h | ⟨label, part, rfl, h, -⟩
  · obtain ⟨c, rest, rfl, hc, -⟩ := exists_cons_of_isSimpleName h
    exact ⟨c, rest, rfl, hc⟩
  · obtain ⟨c, rest, rfl, hc, -⟩ := exists_cons_of_isSimpleName h
    exact ⟨c, rest ++ ':' :: part, rfl, hc⟩

theorem IsQualified.allLegal {cs : List Char} (h : IsQualified cs) : AllLegal cs := by
  rcases h with h | ⟨label, part, rfl, hlabel, hpart⟩
  · exact allLegal_of_isSimpleName h
  · refine allLegal_append.mpr ⟨allLegal_of_isSimpleName hlabel, allLegal_cons.mpr ⟨?_, ?_⟩⟩
    · decide
    · exact allLegal_of_isSimpleName hpart

theorem reads_qualifiedName {cs rest : List Char} (h : IsQualified cs) (hrest : EndsName rest) :
    Reads (qualifiedName (cs ++ rest)) cs rest := by
  have hends : ∀ c, rest.head? = some c → isNameChar c = false := fun c hc => (hrest c hc).1
  rcases h with h | ⟨label, part, rfl, hlabel, hpart⟩
  · obtain ⟨hlt, hread⟩ := reads_simpleName h hends
    have hnone : afterChar? ':' rest = none := by
      cases rest with
      | nil => rfl
      | cons c rest => simp [afterChar?, (hrest c rfl).2]
    rw [Reads, qualifiedName, hread]
    dsimp only
    rw [hnone]
    exact ⟨_, rfl⟩
  · have hcolon : ∀ c, (':' :: (part ++ rest)).head? = some c → isNameChar c = false := by
      rintro c ⟨⟩
      exact isNameChar_mark (by decide)
    obtain ⟨hlt, hread⟩ := reads_simpleName hlabel hcolon
    obtain ⟨hlt', hread'⟩ := reads_simpleName hpart hends
    rw [List.append_assoc, List.cons_append, Reads, qualifiedName, hread]
    dsimp only
    rw [afterChar?_cons_self]
    dsimp only
    rw [hread']
    exact ⟨_, rfl⟩

/-! ## Names in one piece -/

/-- White space, and the marks that end the name of an attribute or set it in a namespace. -/
def breaks : List Char := [' ', '\t', '\n', '\r', '=', '>', '\x7b', '\x7d']

/-- Characters that stay in one piece where they are written as the name of an attribute. -/
def Whole (cs : List Char) : Prop := ∀ c ∈ breaks, c ∉ cs

instance (cs : List Char) : Decidable (Whole cs) := List.decidableBAll _ breaks

theorem Whole.isSpace_eq_false {cs : List Char} (h : Whole cs) {c : Char} (hc : c ∈ cs) :
    isSpace c = false := by
  have hne : ∀ d ∈ breaks, c ≠ d := by
    rintro d hd rfl
    exact h c hd hc
  simp [isSpace, hne ' ' (by decide), hne '\t' (by decide), hne '\n' (by decide),
    hne '\r' (by decide)]

theorem whole_of_isSimpleName {cs : List Char} (h : isSimpleName cs = true) : Whole cs := by
  have hmarks : breaks ⊆ marks := by decide
  exact fun c hc => mark_notMem h (hmarks hc)

theorem Whole.prefixed {label part : List Char} (hlabel : isSimpleName label = true)
    (hpart : Whole part) : Whole (label ++ ':' :: part) := by
  intro c hc hmem
  rcases List.mem_append.mp hmem with hmem | hmem
  · exact whole_of_isSimpleName hlabel c hc hmem
  · rcases List.mem_cons.mp hmem with rfl | hmem
    · exact absurd hc (by decide)
    · exact hpart c hc hmem

theorem IsQualified.whole {cs : List Char} (h : IsQualified cs) : Whole cs := by
  rcases h with h | ⟨label, part, rfl, hlabel, hpart⟩
  · exact whole_of_isSimpleName h
  · exact .prefixed hlabel (whole_of_isSimpleName hpart)

/-! ## Looking for a mark -/

theorem until?_nil (mark : List Char) :
    until? mark [] = if mark.isEmpty then some ([], ⟨[], Nat.le_refl _⟩) else none := rfl

/-- A mark is here, or nowhere, or further on. -/
theorem until?_cons_cases (mark : List Char) (c : Char) (rest : List Char) :
    (mark <+: c :: rest ∧ ∃ hle,
      until? mark (c :: rest) = some ([], ⟨(c :: rest).drop mark.length, hle⟩)) ∨
    ¬ mark <+: c :: rest ∧ until? mark rest = none ∧ until? mark (c :: rest) = none ∨
    ¬ mark <+: c :: rest ∧ ∃ before after hle hle',
      until? mark rest = some (before, ⟨after, hle⟩) ∧
      until? mark (c :: rest) = some (c :: before, ⟨after, hle'⟩) := by
  by_cases hhere : mark.isPrefixOf (c :: rest) = true
  · exact .inl ⟨List.isPrefixOf_iff_prefix.mp hhere, _, if_pos hhere⟩
  · have hnot := mt List.isPrefixOf_iff_prefix.mpr hhere
    cases hrest : until? mark rest with
    | none =>
        refine .inr (.inl ⟨hnot, rfl, (if_neg hhere).trans ?_⟩)
        rw [hrest]
    | some found =>
        obtain ⟨before, after, hle⟩ := found
        refine .inr (.inr ⟨hnot, before, after, hle, Nat.le_succ_of_le hle, rfl,
          (if_neg hhere).trans ?_⟩)
        rw [hrest]

/-! ## Taking names apart -/

theorem splitAtFirst_of_notMem {mark : Char} {before : List Char} (h : mark ∉ before)
    (after : List Char) : splitAtFirst mark (before ++ mark :: after) = some (before, after) := by
  induction before with
  | nil => simp [splitAtFirst]
  | cons c rest ih =>
      obtain ⟨hc, hrest⟩ := not_or.mp (mt List.mem_cons.mpr h)
      rw [List.cons_append, splitAtFirst, if_neg (by simp [Ne.symm hc]), ih hrest]
      rfl

theorem splitAtFirst_eq_none {mark : Char} {cs : List Char} (h : mark ∉ cs) :
    splitAtFirst mark cs = none := by
  cases hsplit : splitAtFirst mark cs with
  | none => rfl
  | some parts => exact absurd (splitAtFirst_isSome.mp (by rw [hsplit]; rfl)) h

theorem eq_of_splitAtFirst {mark : Char} {cs before after : List Char}
    (h : splitAtFirst mark cs = some (before, after)) : cs = before ++ mark :: after := by
  induction cs generalizing before with
  | nil => cases h
  | cons c rest ih =>
      rw [splitAtFirst] at h
      split at h
      · rename_i hc
        cases h
        rw [eq_of_beq hc, List.nil_append]
      · obtain ⟨parts, hparts, heq⟩ := Option.map_eq_some_iff.mp h
        obtain ⟨before', after'⟩ := parts
        cases heq
        rw [ih hparts, List.cons_append]

theorem splitAtLast_of_notMem {mark : Char} {after : List Char} (h : mark ∉ after)
    (before : List Char) : splitAtLast mark (before ++ mark :: after) = some (before, after) := by
  have hreverse : (before ++ mark :: after).reverse = after.reverse ++ mark :: before.reverse := by
    simp
  rw [splitAtLast, hreverse, splitAtFirst_of_notMem (by simpa using h)]
  simp

theorem toList_expand (uri part : String) :
    (expand uri part).toList = '\x7b' :: (uri.toList ++ '\x7d' :: part.toList) := by
  simp [expand]

theorem splitExpanded_expand (uri : String) {part : String} (h : '\x7d' ∉ part.toList) :
    splitExpanded (expand uri part) = .ok (some uri, part) := by
  simp [splitExpanded, toList_expand, splitAtLast_of_notMem h]

theorem splitExpanded_simple {part : String} (h : isSimpleName part.toList = true) :
    splitExpanded part = .ok (none, part) := by
  obtain ⟨c, rest, hpart, hc, -⟩ := exists_cons_of_isSimpleName h
  have hbrace : c ≠ '\x7b' := ne_of_isNameStart hc (isNameStart_mark (by decide))
  rw [splitExpanded, hpart]
  split
  · rename_i hcons
    exact absurd (List.cons.inj hcons).1 hbrace
  · rfl

namespace Scope

theorem splitName_simple {part : String} (h : isSimpleName part.toList = true) :
    splitName part = (none, part) := by
  rw [splitName, splitAtFirst_eq_none (colon_notMem h)]

theorem splitName_prefixed {label : String} (h : isSimpleName label.toList = true)
    (part : String) : splitName (label ++ ":" ++ part) = (some label, part) := by
  have hlist : (label ++ ":" ++ part).toList = label.toList ++ ':' :: part.toList := by simp
  rw [splitName, hlist, splitAtFirst_of_notMem (colon_notMem h)]
  simp

end Scope

/-! ## Names in a tree -/

/-- A namespace that a prefix can be bound to. -/
structure Bindable (uri : String) : Prop where
  nonempty : uri ≠ ""
  unreserved : uri ≠ xmlnsUri
  unbraced : '\x7d' ∉ uri.toList
  legal : AllLegal uri.toList

/-- A name of an element or an attribute that markup can spell. -/
inductive Proper : String → Prop
  | simple {part : String} (hpart : isSimpleName part.toList = true) : Proper part
  | within {uri part : String} (huri : Bindable uri) (hpart : isSimpleName part.toList = true) :
      Proper (expand uri part)

theorem expand_ne_simple {uri part name : String} (h : isSimpleName name.toList = true) :
    expand uri part ≠ name := by
  rintro rfl
  rw [toList_expand] at h
  exact absurd (isSimpleName_cons.mp h).1 (Bool.eq_false_iff.mp (isNameStart_mark (by decide)))

theorem eq_expand_of_splitExpanded {key uri part : String} (hkey : Proper key)
    (h : splitExpanded key = .ok (some uri, part)) :
    key = expand uri part ∧ Bindable uri := by
  cases hkey with
  | simple hpart =>
      rw [splitExpanded_simple hpart] at h
      cases h
  | @within uri' part' huri hpart =>
      rw [splitExpanded_expand uri' (brace_notMem hpart)] at h
      cases h
      exact ⟨rfl, huri⟩

end Cuesheet.Xml
