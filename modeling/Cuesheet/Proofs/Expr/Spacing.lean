import Cuesheet.Expr.Lexer
import Mathlib.Data.List.TakeWhile

/-!
# Tokens and the blanks between them

A text that is read as tokens is a row of spans with blanks around them (`Laid`), one span for each
token. What is read of some characters may depend on what stands around them: a dot on the token
before and the character behind it, a hyphen on the character behind it, a unit on how it goes on.
But no rule looks past a blank, so a span that is followed by a blank or by nothing is read alike
wherever it stands (`Stands`). All spans of a text are of this kind (`scan_laid`), and so the blanks
between them can be exchanged for others (`scan_of_laid`, `tokenize_respaced`).
-/

namespace Cuesheet

namespace Lexeme

open Text (isBlank)

/-! ## Blank characters -/

/-- Characters that are all blank. -/
def Blank (cs : List Char) : Prop := ∀ c ∈ cs, isBlank c = true

/-- Characters none of which is blank. -/
def Dense (cs : List Char) : Prop := ∀ c ∈ cs, isBlank c = false

/-- All blank characters. -/
def blanks : List Char :=
  Text.blankRanges.flatMap fun range =>
    (List.range' range.1 (range.2 + 1 - range.1)).map Char.ofNat

theorem mem_blanks {c : Char} (h : isBlank c = true) : c ∈ blanks := by
  simp only [isBlank, Text.Ranges.containsChar, Text.Ranges.contains, List.any_eq_true,
    Bool.and_eq_true, decide_eq_true_eq] at h
  obtain ⟨range, hrange, hlow, hhigh⟩ := h
  refine List.mem_flatMap.mpr ⟨range, hrange, List.mem_map.mpr ⟨c.toNat, ?_, c.ofNat_toNat⟩⟩
  rw [List.mem_range'_1]
  omega

/-- No token goes on with a blank. -/
theorem not_continues {c : Char} (h : isBlank c = true) :
    isNumberChar c = false ∧ isNameChar c = false ∧ isNameStart c = false ∧
      Text.isDigit c = false ∧ c ≠ '-' := by
  have hall : (blanks.all fun c => !isNumberChar c && !isNameChar c && !isNameStart c &&
      !Text.isDigit c && c != '-') = true := by
    decide +kernel
  simpa [and_assoc] using List.all_eq_true.mp hall c (mem_blanks h)

theorem isBlank_of_isNumberChar {c : Char} (h : isNumberChar c = true) : isBlank c = false := by
  by_contra hblank
  rw [(not_continues (by simpa using hblank)).1] at h
  cases h

theorem isNameChar_of_isNameStart {c : Char} (h : isNameStart c = true) :
    isNameChar c = true := by
  simp only [isNameStart, isNameChar, Char.isAlphanum, Bool.or_eq_true] at h ⊢
  exact h.imp_left .inl

/-- A blank follows, or nothing does. -/
def Ends (after : List Char) : Prop := ∀ c ∈ after.head?, isBlank c = true

theorem Ends.startsWith {after : List Char} (h : Ends after) {p : Char → Bool}
    (hp : ∀ c, isBlank c = true → p c = false) : startsWith p after = false := by
  cases after with
  | nil => rfl
  | cons c rest => exact hp c (h c rfl)

/-! ## The three longer tokens -/

theorem unit?_of_ends {after : List Char} (h : Ends after) : unit? after = none := by
  refine List.find?_eq_none.mpr fun unit _ => ?_
  cases after with
  | nil => cases unit <;> simp [beginsWithUnit, TimeUnit.text]
  | cons c rest =>
      have hname := (not_continues (h c rfl)).2.1
      have hletter : c ≠ 'm' ∧ c ≠ 'f' ∧ c ≠ 's' := by
        refine ⟨?_, ?_, ?_⟩ <;> rintro rfl <;> cases hname
      cases unit <;> simp [beginsWithUnit, TimeUnit.text, hletter.1.symm, hletter.2.1.symm,
        hletter.2.2.symm]

/-- A unit stands in front, and is read alike in front of a blank. -/
theorem unit?_append {cs : List Char} {unit : TimeUnit} (h : unit? cs = some unit) :
    (∃ rest, cs = unitSpan (some unit) ++ rest) ∧
      ∀ after, Ends after → unit? (unitSpan (some unit) ++ after) = some unit := by
  have hbegins : beginsWithUnit cs unit = true := List.find?_some h
  simp only [beginsWithUnit, Bool.and_eq_true] at hbegins
  obtain ⟨rest, hrest⟩ := List.isPrefixOf_iff_prefix.mp hbegins.1
  refine ⟨⟨rest, hrest.symm⟩, fun after hafter => ?_⟩
  have hword : startsWith isNameChar after = false :=
    hafter.startsWith fun c hc => (not_continues hc).2.1
  have hdrop : (unitSpan (some unit) ++ after).drop unit.text.length = after := by
    cases unit <;> rfl
  have hself : beginsWithUnit (unitSpan (some unit) ++ after) unit = true := by
    rw [beginsWithUnit, hdrop, hword]
    simp [unitSpan]
  -- none of the units that are tried before begins like this one
  cases unit with
  | milliseconds => simp [unit?, TimeUnit.all, hself]
  | frames =>
      have hfirst : beginsWithUnit (unitSpan (some .frames) ++ after) .milliseconds = false := rfl
      simp [unit?, TimeUnit.all, hfirst, hself]
  | seconds =>
      have hfirst : beginsWithUnit (unitSpan (some .seconds) ++ after) .milliseconds = false := rfl
      have hsecond : beginsWithUnit (unitSpan (some .seconds) ++ after) .frames = false := rfl
      simp [unit?, TimeUnit.all, hfirst, hsecond, hself]

theorem dense_unitSpan (unit : Option TimeUnit) : Dense (unitSpan unit) := by
  have hall : (unitSpan unit).all (fun c => !isBlank c) = true := by
    rcases unit with _ | _ | _ | _ <;> decide +kernel
  exact fun c hc => by simpa using List.all_eq_true.mp hall c hc

/-- The characters of a number end where a unit begins, and where a blank follows. -/
theorem not_isNumberChar_unitSpan (unit : Option TimeUnit) {after : List Char} (h : Ends after) :
    (unitSpan unit ++ after).takeWhile isNumberChar = [] ∧
      (unitSpan unit ++ after).dropWhile isNumberChar = unitSpan unit ++ after := by
  cases unit with
  | none =>
      cases after with
      | nil => exact ⟨rfl, rfl⟩
      | cons c rest => simp [unitSpan, (not_continues (h c rfl)).1]
  | some unit =>
      have hletter : isNumberChar 'm' = false ∧ isNumberChar 'f' = false ∧
          isNumberChar 's' = false := by
        decide
      cases unit <;> simp [unitSpan, TimeUnit.text, hletter]

/-- The span of a number is what it was read from and a unit, and it is read alike in front of a
blank. -/
theorem number_append {raw after : List Char} {lexeme : Lexeme}
    (h : number raw after = .ok lexeme) :
    ∃ unit rest, lexeme.span = raw ++ unitSpan unit ∧ after = unitSpan unit ++ rest ∧
      ∀ after, Ends after → number raw (unitSpan unit ++ after) = .ok lexeme := by
  unfold number at h
  split at h
  · cases h
  · rename_i value hvalue
    dsimp only at h
    split at h
    · cases h
    · cases h
      cases hunit : unit? after with
      | none =>
          refine ⟨none, after, rfl, rfl, fun after hafter => ?_⟩
          have hstart : startsWith isNameStart after = false :=
            hafter.startsWith fun c hc => (not_continues hc).2.2.1
          simp [number, hvalue, unitSpan, unit?_of_ends hafter, hstart]
      | some unit =>
          obtain ⟨⟨rest, hrest⟩, hagain⟩ := unit?_append hunit
          refine ⟨some unit, rest, rfl, hrest, fun after hafter => ?_⟩
          simp [number, hvalue, hagain after hafter]

/-- A name is read alike in front of a blank. -/
theorem nameRun_append {after : List Char} (h : Ends after) (cs : List Char) :
    nameRun (nameRun cs ++ after) = nameRun cs := by
  induction cs with
  | nil =>
      cases after with
      | nil => rfl
      | cons c rest =>
          obtain ⟨-, hname, -, -, hhyphen⟩ := not_continues (h c rfl)
          simp [nameRun, hname, hhyphen]
  | cons c rest ih =>
      by_cases hc : (isNameChar c || (c == '-' && startsWith isNameStart rest)) = true
      · have hrun : nameRun (c :: rest) = c :: nameRun rest := by rw [nameRun, if_pos hc]
        have hkept : (isNameChar c ||
            (c == '-' && startsWith isNameStart (nameRun rest ++ after))) = true := by
          rw [Bool.or_eq_true, Bool.and_eq_true] at hc ⊢
          refine hc.imp_right fun ⟨hhyphen, hstart⟩ => ⟨hhyphen, ?_⟩
          -- the letter behind a hyphen belongs to the name
          cases rest with
          | nil => cases hstart
          | cons d rest =>
              have hd : isNameChar d = true := isNameChar_of_isNameStart hstart
              rw [nameRun, hd, Bool.true_or, if_pos rfl]
              exact hstart
        rw [hrun, List.cons_append, nameRun, if_pos hkept, ih]
      · have hrun : nameRun (c :: rest) = [] := by rw [nameRun, if_neg hc]
        rw [hrun]
        cases after with
        | nil => rfl
        | cons d more =>
            obtain ⟨-, hname, -, -, hhyphen⟩ := not_continues (h d rfl)
            simp [nameRun, hname, hhyphen]

theorem nameRun_prefix (cs : List Char) : nameRun cs <+: cs := by
  induction cs with
  | nil => exact List.prefix_rfl
  | cons c rest ih =>
      rw [nameRun]
      split
      · exact (List.prefix_cons_inj c).mpr ih
      · exact List.nil_prefix

theorem dense_nameRun (cs : List Char) : Dense (nameRun cs) := by
  induction cs with
  | nil => exact fun _ h => nomatch h
  | cons c rest ih =>
      rw [nameRun]
      split
      · rename_i hc
        refine List.forall_mem_cons.mpr ⟨?_, ih⟩
        by_contra hblank
        obtain ⟨-, hname, -, -, hhyphen⟩ := not_continues (by simpa using hblank)
        simp [hname, hhyphen] at hc
      · exact fun _ h => nomatch h

/-! ## Lexemes where they stand -/

/-- A lexeme is read at its first character, in front of any blank and of nothing, after the token
before it, and after any other token that no property can hang off. -/
structure Stands (previous : Option Token) (lexeme : Lexeme) : Prop where
  dense : Dense lexeme.span
  read : ∃ c tail, lexeme.span = c :: tail ∧ ∀ before after, Ends after →
    (before.any Token.takesProperty = true → previous.any Token.takesProperty = true) →
      next before c (tail ++ after) = .ok lexeme

variable {previous : Option Token} {c : Char} {rest : List Char} {lexeme : Lexeme}

/-- A dot begins a number in front of the same digits. -/
theorem dotBeginsNumber_again {before : Option Token}
    (hbefore : before.any Token.takesProperty = true → previous.any Token.takesProperty = true)
    (h : dotBeginsNumber previous rest = true) (after : List Char) :
    dotBeginsNumber before (rest.takeWhile isNumberChar ++ after) = true := by
  rw [dotBeginsNumber, Bool.and_eq_true, Bool.not_eq_true', ← Bool.not_eq_true] at h ⊢
  obtain ⟨hdigit, hprevious⟩ := h
  constructor
  · cases rest with
    | nil => cases hdigit
    | cons d rest =>
        have hd : isNumberChar d = true := by
          have hd : Text.isDigit d = true := hdigit
          simp [isNumberChar, hd]
        rw [List.takeWhile_cons_of_pos hd]
        exact hdigit
  · exact fun h => hprevious (hbefore h)

/-- What is read is a span in front of the characters, and it stands. -/
theorem next_stands (hblank : isBlank c = false) (h : next previous c rest = .ok lexeme) :
    Stands previous lexeme ∧ ∃ more, c :: rest = lexeme.span ++ more := by
  unfold next at h
  split at h
  · rename_i token hsingle
    cases h
    refine ⟨⟨by simpa [Dense] using hblank, c, [], rfl, fun before after _ _ => ?_⟩, rest, rfl⟩
    rw [next, hsingle]
  · rename_i hsingle
    split at h
    · rename_i hdot
      cases h
      refine ⟨⟨by simpa [Dense] using hblank, c, [], rfl, fun before after hafter _ => ?_⟩,
        rest, rfl⟩
      have hnone : dotBeginsNumber before after = false := by
        rw [dotBeginsNumber, hafter.startsWith fun c hc => (not_continues hc).2.2.2.1]
        rfl
      rw [Bool.and_eq_true] at hdot
      rw [next, hsingle]
      simp [hdot.1, hnone]
    · rename_i hdot
      split at h
      · rename_i hnumber
        obtain ⟨unit, more, hspan, hmore, hagain⟩ := number_append h
        have htaken : ∀ d ∈ rest.takeWhile isNumberChar, isNumberChar d = true :=
          fun d hd => List.mem_takeWhile_imp hd
        have hsplit : rest = rest.takeWhile isNumberChar ++ (unitSpan unit ++ more) := by
          rw [← hmore, List.takeWhile_append_dropWhile]
        refine ⟨⟨?_, c, rest.takeWhile isNumberChar ++ unitSpan unit, hspan, ?_⟩, more, ?_⟩
        · rw [hspan]
          refine List.forall_mem_append.mpr ⟨?_, dense_unitSpan unit⟩
          exact List.forall_mem_cons.mpr ⟨hblank, fun d hd => isBlank_of_isNumberChar (htaken d hd)⟩
        · intro before after hafter hbefore
          have hends := not_isNumberChar_unitSpan unit hafter
          have htake : (rest.takeWhile isNumberChar ++ unitSpan unit ++ after).takeWhile
              isNumberChar = rest.takeWhile isNumberChar := by
            rw [List.append_assoc, List.takeWhile_append_of_pos htaken, hends.1, List.append_nil]
          have hdrop : (rest.takeWhile isNumberChar ++ unitSpan unit ++ after).dropWhile
              isNumberChar = unitSpan unit ++ after := by
            rw [List.append_assoc, List.dropWhile_append_of_pos htaken, hends.2]
          have hdot' : ¬ (c == '.' && !dotBeginsNumber before
              (rest.takeWhile isNumberChar ++ unitSpan unit ++ after)) = true := by
            intro hdot'
            simp only [Bool.and_eq_true, Bool.not_eq_true', not_and] at hdot hdot'
            rw [List.append_assoc, dotBeginsNumber_again hbefore (by simpa using hdot hdot'.1)]
              at hdot'
            cases hdot'.2
          rw [next, hsingle]
          dsimp only
          rw [if_neg hdot', if_pos hnumber, htake, hdrop]
          exact hagain after hafter
        · rw [hspan, List.cons_append, List.cons_append, List.append_assoc, ← hsplit]
      · rename_i hnumber
        split at h
        · rename_i hname
          cases h
          have hc : (isNameChar c || (c == '-' && startsWith isNameStart rest)) = true := by
            rw [isNameChar_of_isNameStart hname, Bool.true_or]
          have hrun : nameRun (c :: rest) = c :: nameRun rest := by rw [nameRun, if_pos hc]
          obtain ⟨more, hmore⟩ := nameRun_prefix (c :: rest)
          refine ⟨⟨dense_nameRun _, c, nameRun rest, hrun, ?_⟩, more, hmore.symm⟩
          intro before after hafter _
          have hdot' : ¬ (c == '.' && !dotBeginsNumber before (nameRun rest ++ after)) = true := by
            rw [Bool.and_eq_true, beq_iff_eq]
            rintro ⟨rfl, -⟩
            cases hname
          have hagain := nameRun_append hafter (c :: rest)
          rw [hrun, List.cons_append] at hagain
          rw [next, hsingle]
          dsimp only
          rw [if_neg hdot', if_neg hnumber, if_pos hname, hagain, hrun]
        · cases h

/-! ## Rows of lexemes -/

/-- Lexemes each of which stands behind the one before it. -/
inductive Row : Option Token → List Lexeme → Prop
  | nil {before} : Row before []
  | cons {before lexeme lexemes} (stands : Stands before lexeme)
      (rest : Row (some lexeme.token) lexemes) : Row before (lexeme :: lexemes)

/-- The characters are the spans in their order and blanks around them, at least `first` in front of
the first span and at least `between` in front of each further one. -/
inductive Laid (between : Nat) : Nat → List (List Char) → List Char → Prop
  | nil {first gap} (blank : Blank gap) : Laid between first [] gap
  | cons {first gap span spans cs} (blank : Blank gap) (long : first ≤ gap.length)
      (rest : Laid between between spans cs) :
      Laid between first (span :: spans) (gap ++ (span ++ cs))

theorem Laid.front {between : Nat} {span cs : List Char} {spans : List (List Char)}
    (rest : Laid between between spans cs) : Laid between 0 (span :: spans) (span ++ cs) := by
  have hlaid : Laid between 0 (span :: spans) ([] ++ (span ++ cs)) :=
    .cons (fun _ h => by cases h) (Nat.le_refl 0) rest
  exact hlaid

/-- Between spans that are kept apart, what follows a span is a blank or nothing. -/
theorem Laid.ends {spans : List (List Char)} {cs : List Char} (h : Laid 1 1 spans cs) :
    Ends cs := by
  cases h with
  | nil blank => exact fun c hc => blank c (List.mem_of_mem_head? hc)
  | @cons _ gap _ _ _ blank long _ =>
      cases gap with
      | nil => cases long
      | cons d gap =>
          rintro c ⟨⟩
          exact blank d List.mem_cons_self

/-- Blanks in front of a row belong to its first gap. -/
theorem Laid.blank_cons {between : Nat} {spans : List (List Char)} {c : Char} {cs : List Char}
    (hc : isBlank c = true) (h : Laid between 0 spans cs) : Laid between 0 spans (c :: cs) := by
  cases h with
  | nil blank => exact .nil (List.forall_mem_cons.mpr ⟨hc, blank⟩)
  | cons blank _ rest =>
      exact .cons (List.forall_mem_cons.mpr ⟨hc, blank⟩) (Nat.zero_le _) rest

/-- A scan reads a row of lexemes, and between their spans it leaves out blanks only. -/
theorem scan_laid {cs : List Char} {lexemes : List Lexeme} (h : scan previous cs = .ok lexemes) :
    Row previous lexemes ∧ Laid 0 0 (lexemes.map Lexeme.span) cs := by
  fun_induction scan previous cs generalizing lexemes with
  | case1 =>
      cases h
      exact ⟨.nil, .nil fun _ h => by cases h⟩
  | case2 previous c rest hblank ih => exact (ih h).imp_right (Laid.blank_cons hblank)
  | case3 => cases h
  | case4 => cases h
  | case5 previous c rest hblank lexeme hnext lexemes hscan ih =>
      cases h
      obtain ⟨hstands, more, hmore⟩ := next_stands (by simpa using hblank) hnext
      obtain ⟨hrow, hlaid⟩ := ih hscan
      refine ⟨.cons hstands hrow, ?_⟩
      obtain ⟨d, tail, hspan, -⟩ := hstands.read
      have hrest : rest.drop (lexeme.span.length - 1) = more := by
        rw [hspan, List.cons_append, List.cons.injEq] at hmore
        rw [hspan, hmore.2, List.length_cons, Nat.add_sub_cancel, List.drop_left]
      rw [hrest] at hlaid
      rw [hmore, List.map_cons]
      exact hlaid.front

@[simp] theorem scan_nil : scan previous [] = .ok [] := by rw [scan]

theorem scan_blank {gap : List Char} (h : Blank gap) (cs : List Char) :
    scan previous (gap ++ cs) = scan previous cs := by
  induction gap with
  | nil => rfl
  | cons c gap ih =>
      obtain ⟨hc, hgap⟩ := List.forall_mem_cons.mp h
      rw [List.cons_append, scan, if_pos hc, ih hgap]

/-- One step of a scan. -/
theorem scan_cons {lexemes : List Lexeme} {more : List Char} (hblank : isBlank c = false)
    (hnext : next previous c rest = .ok lexeme) (hmore : rest.drop (lexeme.span.length - 1) = more)
    (hscan : scan (some lexeme.token) more = .ok lexemes) :
    scan previous (c :: rest) = .ok (lexeme :: lexemes) := by
  rw [scan, if_neg (by simp [hblank]), hnext]
  simp only [hmore, hscan]

/-- A row of lexemes is read off its spans, whatever blanks keep them apart. -/
theorem Row.scan {lexemes : List Lexeme} (hrow : Row previous lexemes) {first : Nat}
    {cs : List Char} (h : Laid 1 first (lexemes.map Lexeme.span) cs) :
    Lexeme.scan previous cs = .ok lexemes := by
  induction hrow generalizing first cs with
  | @nil before =>
      cases h with
      | nil blank =>
          have hall : Lexeme.scan before (_ ++ []) = Lexeme.scan before [] := scan_blank blank []
          rw [List.append_nil] at hall
          rw [hall, Lexeme.scan]
  | @cons previous lexeme lexemes stands _ ih =>
      cases h with
      | @cons _ gap _ _ cs blank _ rest =>
          obtain ⟨c, tail, hspan, hread⟩ := stands.read
          have hc : isBlank c = false := stands.dense c (by simp [hspan])
          have hrest : (tail ++ cs).drop (lexeme.span.length - 1) = cs := by
            rw [hspan, List.length_cons, Nat.add_sub_cancel, List.drop_left]
          rw [scan_blank blank, hspan, List.cons_append]
          exact scan_cons hc (hread _ cs rest.ends id) hrest (ih rest)

/-- A lexeme that stands behind some token is also read alone. -/
theorem Stands.alone (h : Stands previous lexeme) : Row none [lexeme] := by
  refine .cons ⟨h.dense, ?_⟩ .nil
  obtain ⟨c, tail, hspan, hread⟩ := h.read
  exact ⟨c, tail, hspan, fun before after hafter hbefore => hread before after hafter
    fun hproperty => absurd (hbefore hproperty) (by simp)⟩

theorem Row.alone {lexemes : List Lexeme} (hrow : Row previous lexemes) :
    ∀ lexeme ∈ lexemes, lexeme.span ≠ [] ∧ Dense lexeme.span ∧ Row none [lexeme] := by
  induction hrow with
  | nil => exact fun _ h => by cases h
  | cons stands _ ih =>
      refine List.forall_mem_cons.mpr ⟨⟨?_, stands.dense, stands.alone⟩, ih⟩
      obtain ⟨c, tail, hspan, -⟩ := stands.read
      simp [hspan]

/-- Reading tokens loses nothing and does not depend on spacing. The text is a row of spans with
only blanks around them, one span for each token, none empty and none with a blank in it; every span
alone is read as its token; and the same spans with any blanks instead, at least one between two of
them, are read as the same tokens. -/
theorem tokenize_respaced {s : String} {tokens : List Token} (h : tokenize s = .ok tokens) :
    ∃ lexemes : List Lexeme,
      Lexeme.scan none s.toList = .ok lexemes ∧ lexemes.map Lexeme.token = tokens ∧
      Laid 0 0 (lexemes.map Lexeme.span) s.toList ∧
      (∀ lexeme ∈ lexemes, lexeme.span ≠ [] ∧ Dense lexeme.span ∧
        tokenize (String.ofList lexeme.span) = .ok [lexeme.token]) ∧
      ∀ text : String, Laid 1 0 (lexemes.map Lexeme.span) text.toList →
        tokenize text = .ok tokens := by
  rw [tokenize] at h
  cases hscan : Lexeme.scan none s.toList with
  | error fault =>
      rw [hscan] at h
      cases h
  | ok lexemes =>
      rw [hscan] at h
      cases h
      obtain ⟨hrow, hlaid⟩ := scan_laid hscan
      refine ⟨lexemes, rfl, rfl, hlaid, fun lexeme hmem => ?_, fun text htext => ?_⟩
      · obtain ⟨hspan, hdense, halone⟩ := hrow.alone lexeme hmem
        refine ⟨hspan, hdense, ?_⟩
        have hself : Laid 1 0 [lexeme.span] (lexeme.span ++ []) :=
          .front (.nil fun _ h => by cases h)
        rw [List.append_nil] at hself
        rw [tokenize, String.toList_ofList, halone.scan hself]
        rfl
      · rw [tokenize, hrow.scan htext]
        rfl

/-- The lexemes of `a-b.end+.5s`, half a second after something. -/
def offset : List Lexeme := [
  { token := .name "a-b", span := "a-b".toList },
  { token := .dot, span := ['.'] },
  { token := .name "end", span := "end".toList },
  { token := .op .add, span := ['+'] },
  { token := .number (.finite false 5 (-1)) (some .seconds), span := ".5s".toList }]

theorem tokenize_offset :
    tokenize "a-b.end+.5s" = .ok (offset.map token) ∧
      tokenize "a-b . end + .5s " = .ok (offset.map token) := by
  have hscan : scan none ['a', '-', 'b', '.', 'e', 'n', 'd', '+', '.', '5', 's'] = .ok offset := by
    refine scan_cons rfl (by decide +kernel) rfl ?_
    refine scan_cons rfl (by decide +kernel) rfl ?_
    refine scan_cons rfl (by decide +kernel) rfl ?_
    refine scan_cons rfl (by decide +kernel) rfl ?_
    exact scan_cons rfl (by decide +kernel) rfl scan_nil
  have htokens : tokenize "a-b.end+.5s" = .ok (offset.map token) := by
    rw [tokenize, String.toList_ofList, hscan]
    rfl
  refine ⟨htokens, ?_⟩
  obtain ⟨lexemes, hlexemes, -, -, -, hrespaced⟩ := tokenize_respaced htokens
  cases hscan.symm.trans hlexemes
  have hblank : Blank [' '] := List.forall_mem_singleton.mpr (by decide +kernel)
  have hspaced : ∀ {span : List Char} {spans : List (List Char)} {cs : List Char},
      Laid 1 1 spans cs → Laid 1 1 (span :: spans) ([' '] ++ (span ++ cs)) :=
    .cons hblank (Nat.le_refl 1)
  exact hrespaced _ (.front (hspaced (hspaced (hspaced (hspaced (.nil hblank))))))

end Lexeme

end Cuesheet
