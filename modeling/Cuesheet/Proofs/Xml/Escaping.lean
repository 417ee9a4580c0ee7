import Cuesheet.Proofs.Xml.Names
import Cuesheet.Xml.Content
import Mathlib.Tactic.SplitIfs

/-!
# Escaped characters, read back

A character of a text or of a value is written as itself or as a reference to it
(`textChar_cases`, `valueChar_cases`), and a written value is read as it was
(`attributeValue_written`). A carriage return in a text is the one character that does not come
back: reading takes it for a line feed, before anything else is read (`normalizeLines_written`).
-/

namespace Cuesheet.Xml

/-! ## References -/

theorem until?_of_notMem {mark : Char} {before : List Char} (h : mark ∉ before)
    (after : List Char) :
    ∃ hle : after.length ≤ (before ++ mark :: after).length,
      until? [mark] (before ++ mark :: after) = some (before, ⟨after, hle⟩) := by
  induction before with
  | nil =>
      have hhere : [mark] <+: mark :: after := ⟨after, rfl⟩
      rcases until?_cons_cases [mark] mark after with ⟨-, hle, hread⟩ | ⟨hnot, -⟩ | ⟨hnot, -⟩
      · exact ⟨_, hread⟩
      · exact absurd hhere hnot
      · exact absurd hhere hnot
  | cons c rest ih =>
      obtain ⟨hc, hrest⟩ := not_or.mp (mt List.mem_cons.mpr h)
      obtain ⟨hle, hread⟩ := ih hrest
      rcases until?_cons_cases [mark] c (rest ++ mark :: after) with ⟨hhere, -⟩ | ⟨-, hnone, -⟩ |
        ⟨-, found, last, hle', hle'', hrest', hlater⟩
      · exact absurd (List.cons_prefix_cons.mp hhere).1 hc
      · rw [hread] at hnone
        cases hnone
      · rw [hread] at hrest'
        cases hrest'
        exact ⟨_, hlater⟩

/-- The characters of a reference to a character. -/
def IsReferenceTo (c : Char) (cs : List Char) : Prop :=
  ∃ body, cs = '&' :: body ++ [';'] ∧ ';' ∉ body ∧ Reference.ofBody body = .ok (.char c)

theorem IsReferenceTo.of_body {c : Char} (body : List Char) (hend : ';' ∉ body)
    (h : Reference.ofBody body = .ok (.char c)) : IsReferenceTo c ('&' :: body ++ [';']) :=
  ⟨body, rfl, hend, h⟩

theorem IsReferenceTo.reads {c : Char} {cs : List Char} (h : IsReferenceTo c cs)
    (rest : List Char) :
    ∃ after hle, cs ++ rest = '&' :: after ∧ reference after = .ok (.char c, ⟨rest, hle⟩) := by
  obtain ⟨body, rfl, hend, hbody⟩ := h
  obtain ⟨hle, hread⟩ := until?_of_notMem hend rest
  refine ⟨body ++ ';' :: rest, hle, by simp, ?_⟩
  rw [reference, hread]
  simp [hbody, Except.map]

/-- In a text, markup is written by reference and all else as it is. -/
theorem textChar_cases (c : Char) :
    IsReferenceTo c (textChar c) ∨ textChar c = [c] ∧ c ≠ '&' ∧ c ≠ '<' ∧ c ≠ '>' := by
  by_cases hamp : c = '&'
  · subst hamp
    exact .inl (.of_body "amp".toList (by decide) rfl)
  by_cases hlt : c = '<'
  · subst hlt
    exact .inl (.of_body "lt".toList (by decide) rfl)
  by_cases hgt : c = '>'
  · subst hgt
    exact .inl (.of_body "gt".toList (by decide) rfl)
  · exact .inr ⟨by simp [textChar, hamp, hlt, hgt], hamp, hlt, hgt⟩

/-- In a value, quotes and breaks are written by reference as well. -/
theorem valueChar_cases (c : Char) :
    IsReferenceTo c (valueChar c) ∨
      valueChar c = [c] ∧ c ≠ '&' ∧ c ≠ '<' ∧ c ≠ '"' ∧ (isSpace c = true → c = ' ') := by
  by_cases hquote : c = '"'
  · subst hquote
    exact .inl (.of_body "quot".toList (by decide) rfl)
  by_cases hreturn : c = '\r'
  · subst hreturn
    exact .inl (.of_body "#13".toList (by decide) rfl)
  by_cases hfeed : c = '\n'
  · subst hfeed
    exact .inl (.of_body "#10".toList (by decide) rfl)
  by_cases htab : c = '\t'
  · subst htab
    exact .inl (.of_body "#09".toList (by decide) rfl)
  have hvalue : valueChar c = textChar c := by simp [valueChar, hquote, hreturn, hfeed, htab]
  rw [hvalue]
  rcases textChar_cases c with href | ⟨hself, hamp, hlt, -⟩
  · exact .inl href
  · refine .inr ⟨hself, hamp, hlt, hquote, fun hspace => ?_⟩
    simpa [isSpace, hreturn, hfeed, htab] using hspace

/-- A written value holds no quote. -/
theorem quote_notMem_written (value : List Char) : '"' ∉ value.flatMap valueChar := by
  intro hmem
  obtain ⟨c, -, hmem⟩ := List.mem_flatMap.mp hmem
  by_cases hquote : c = '"'
  · subst hquote
    revert hmem
    decide
  · unfold valueChar textChar at hmem
    split_ifs at hmem <;> simp at hmem
    exact hquote hmem.symm

theorem attributeValue_written (value : List Char) :
    Entities.attributeValue {} (value.flatMap valueChar) = .ok value := by
  induction value with
  | nil => rw [List.flatMap_nil, Entities.attributeValue]
  | cons c rest ih =>
      rw [List.flatMap_cons]
      rcases valueChar_cases c with href | ⟨hself, hamp, hlt, -, hspace⟩
      · obtain ⟨after, hle, hcs, href⟩ := href.reads (rest.flatMap valueChar)
        rw [hcs, Entities.attributeValue, href]
        simp [isSpace, ih, Except.map]
      · rw [hself, List.singleton_append, Entities.attributeValue, ih]
        by_cases hblank : isSpace c = true
        · simp [hspace hblank, Except.map]
        · simp [hblank, hamp, hlt, Except.map]

/-! ## Line ends -/

theorem normalizeLines_cons {c : Char} (h : c ≠ '\r') (rest : List Char) :
    normalizeLines (c :: rest) = c :: normalizeLines rest := by
  rw [normalizeLines.eq_def]
  split <;> simp_all

theorem normalizeLines_return {rest : List Char} (h : rest.head? ≠ some '\n') :
    normalizeLines ('\r' :: rest) = '\n' :: normalizeLines rest := by
  cases rest with
  | nil => rfl
  | cons d more =>
      have hd : d ≠ '\n' := by simpa using h
      rw [normalizeLines]
      exact fun _ heq => hd (List.cons.inj heq).1

theorem normalizeLines_append_of_notMem {front : List Char} (h : '\r' ∉ front)
    (rest : List Char) : normalizeLines (front ++ rest) = front ++ normalizeLines rest := by
  induction front with
  | nil => rfl
  | cons c more ih =>
      obtain ⟨hc, hmore⟩ := not_or.mp (mt List.mem_cons.mpr h)
      rw [List.cons_append, normalizeLines_cons (Ne.symm hc), ih hmore, List.cons_append]

/-- Lines end in either of two texts, but for a line end of which each has a half. -/
theorem normalizeLines_append (front : List Char) {rest : List Char}
    (h : rest.head? ≠ some '\n') :
    normalizeLines (front ++ rest) = normalizeLines front ++ normalizeLines rest := by
  fun_induction normalizeLines front with
  | case1 more ih => rw [List.cons_append, List.cons_append, normalizeLines, ih, List.cons_append]
  | case2 more hmore ih =>
      have hhead : (more ++ rest).head? ≠ some '\n' := by
        cases more with
        | nil => exact h
        | cons d more => simpa using fun heq : d = '\n' => hmore more (by rw [heq])
      rw [List.cons_append, normalizeLines_return hhead, ih, List.cons_append]
  | case3 d more _ hd ih => rw [List.cons_append, normalizeLines_cons hd, ih, List.cons_append]
  | case4 => rfl

/-- Carriage returns become line feeds, and nothing else changes. -/
theorem mem_normalizeLines_iff {c : Char} {cs : List Char} :
    c ∈ normalizeLines cs ↔ c ∈ cs ∧ c ≠ '\r' ∨ c = '\n' ∧ '\r' ∈ cs := by
  fun_induction normalizeLines cs with
  | case1 rest ih => rw [List.mem_cons, ih]; grind
  | case2 rest _ ih => rw [List.mem_cons, ih]; grind
  | case3 d rest _ hd ih => rw [List.mem_cons, ih]; grind
  | case4 => simp

theorem return_notMem_normalizeLines (cs : List Char) : '\r' ∉ normalizeLines cs := by
  simp [mem_normalizeLines_iff]

theorem notMem_normalizeLines {c : Char} {cs : List Char} (hfeed : c ≠ '\n') (h : c ∉ cs) :
    c ∉ normalizeLines cs := by
  simp [mem_normalizeLines_iff, hfeed, h]

theorem normalizeLines_eq_self_iff {cs : List Char} : normalizeLines cs = cs ↔ '\r' ∉ cs := by
  constructor
  · intro h
    rw [← h]
    exact return_notMem_normalizeLines cs
  · intro h
    have happend := normalizeLines_append_of_notMem h []
    rwa [normalizeLines, List.append_nil] at happend

theorem isEmpty_normalizeLines (cs : List Char) : (normalizeLines cs).isEmpty = cs.isEmpty := by
  fun_cases normalizeLines cs <;> simp_all

/-- Line ends may stand in a document, so normalizing them changes nothing about what may. -/
theorem allLegal_normalizeLines_iff {cs : List Char} :
    AllLegal (normalizeLines cs) ↔ AllLegal cs := by
  have hreturn : isLegal '\r' = true := by decide
  have hfeed : isLegal '\n' = true := by decide
  constructor
  · intro h c hc
    by_cases heq : c = '\r'
    · rw [heq, hreturn]
    · exact h c (mem_normalizeLines_iff.mpr (.inl ⟨hc, heq⟩))
  · intro h c hc
    rcases mem_normalizeLines_iff.mp hc with ⟨hmem, -⟩ | ⟨rfl, -⟩
    · exact h c hmem
    · exact hfeed

/-- What has no carriage return and may stand in a document is read as it is. -/
theorem normalized_of_all {cs : List Char}
    (h : cs.all (fun c => isLegal c && c != '\r') = true) :
    AllLegal cs ∧ normalizeLines cs = cs := by
  have hboth : ∀ c ∈ cs, isLegal c = true ∧ c ≠ '\r' := by simpa using h
  exact ⟨fun c hc => (hboth c hc).1,
    normalizeLines_eq_self_iff.mpr fun hmem => (hboth _ hmem).2 rfl⟩

theorem textChar_of_ne {c : Char} (hamp : c ≠ '&') (hlt : c ≠ '<') (hgt : c ≠ '>') :
    textChar c = [c] := by
  simp [textChar, hamp, hlt, hgt]

theorem head?_textChar (c : Char) (rest : List Char) (h : c ≠ '\n') :
    (textChar c ++ rest).head? ≠ some '\n' := by
  rcases textChar_cases c with ⟨body, hbody, -, -⟩ | ⟨hself, -⟩
  · rw [hbody]
    simp
  · rw [hself]
    simpa using h

/-- Line ends of a written text are normalized as they would be before it was written. -/
theorem normalizeLines_written (text : List Char) {rest : List Char}
    (h : rest.head? ≠ some '\n') :
    normalizeLines (text.flatMap textChar ++ rest) =
      (normalizeLines text).flatMap textChar ++ normalizeLines rest := by
  fun_induction normalizeLines text with
  | case1 more ih =>
      have hpair : ('\r' :: '\n' :: more).flatMap textChar =
          '\r' :: '\n' :: more.flatMap textChar := rfl
      have hfeed : ('\n' :: normalizeLines more).flatMap textChar =
          '\n' :: (normalizeLines more).flatMap textChar := rfl
      rw [hpair, hfeed, List.cons_append, List.cons_append, normalizeLines, ih, List.cons_append]
  | case2 more hmore ih =>
      have hreturn : ('\r' :: more).flatMap textChar = '\r' :: more.flatMap textChar := rfl
      have hfeed : ('\n' :: normalizeLines more).flatMap textChar =
          '\n' :: (normalizeLines more).flatMap textChar := rfl
      have hhead : (more.flatMap textChar ++ rest).head? ≠ some '\n' := by
        cases more with
        | nil => exact h
        | cons d more =>
            rw [List.flatMap_cons, List.append_assoc]
            refine head?_textChar d _ fun heq => ?_
            exact hmore more (by rw [heq])
      rw [hreturn, hfeed, List.cons_append, normalizeLines_return hhead, ih, List.cons_append]
  | case3 c more _ hreturn ih =>
      have hc : '\r' ≠ c := fun heq => hreturn heq.symm
      have hwritten : '\r' ∉ textChar c := by
        unfold textChar
        split_ifs <;> simp [hc]
      rw [List.flatMap_cons, List.append_assoc, normalizeLines_append_of_notMem hwritten, ih,
        List.flatMap_cons, List.append_assoc]
  | case4 => simp

/-! ## Characters that may stand in a document -/

theorem allLegal_textChar_iff {c : Char} : AllLegal (textChar c) ↔ isLegal c = true := by
  unfold textChar
  split_ifs with hamp hlt hgt
  · rw [eq_of_beq hamp, allLegal_iff_all]
    decide
  · rw [eq_of_beq hlt, allLegal_iff_all]
    decide
  · rw [eq_of_beq hgt, allLegal_iff_all]
    decide
  · simp [allLegal_iff_all]

theorem allLegal_valueChar_iff {c : Char} : AllLegal (valueChar c) ↔ isLegal c = true := by
  unfold valueChar
  split_ifs with hquote hreturn hfeed htab
  · rw [eq_of_beq hquote, allLegal_iff_all]
    decide
  · rw [eq_of_beq hreturn, allLegal_iff_all]
    decide
  · rw [eq_of_beq hfeed, allLegal_iff_all]
    decide
  · rw [eq_of_beq htab, allLegal_iff_all]
    decide
  · exact allLegal_textChar_iff

/-- Characters may stand in a document as they are if they may as they are written. -/
theorem allLegal_flatMap_iff {spell : Char → List Char}
    (hspell : ∀ c, AllLegal (spell c) ↔ isLegal c = true) {cs : List Char} :
    AllLegal (cs.flatMap spell) ↔ AllLegal cs := by
  constructor
  · intro h c hc
    exact (hspell c).mp fun d hd => h d (List.mem_flatMap.mpr ⟨c, hc, hd⟩)
  · intro h d hd
    obtain ⟨c, hc, hd⟩ := List.mem_flatMap.mp hd
    exact (hspell c).mpr (h c hc) d hd

end Cuesheet.Xml
