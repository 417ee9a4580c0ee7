import Cuesheet.Proofs.Xml.Names
import Mathlib.Data.List.TakeWhile

/-!
# What readers take

A reader takes characters off the front of a text: what it returns of them, and what it leaves,
holds no others. The names it returns are names, and a reference to a character is to one that may
stand in a document.
-/

namespace Cuesheet.Xml

variable {cs name before body target : List Char}

theorem dropWhile_subset (p : Char → Bool) (cs : List Char) : cs.dropWhile p ⊆ cs :=
  (List.dropWhile_suffix p).subset

theorem skipSpace_subset (cs : List Char) : (skipSpace cs).1 ⊆ cs := dropWhile_subset isSpace cs

theorem after?_subset {mark : List Char} {rest : Rest cs} (h : after? mark cs = some rest) :
    rest.1 ⊆ cs := by
  rw [after?] at h
  split at h
  · cases h
    exact List.drop_subset _ _
  · cases h

theorem eq_cons_of_afterChar? {c : Char}
    {rest : { rest : List Char // rest.length < cs.length }} (h : afterChar? c cs = some rest) :
    cs = c :: rest.1 := by
  cases cs with
  | nil => cases h
  | cons d tail =>
      rw [afterChar?] at h
      split at h
      · rename_i hd
        cases h
        rw [eq_of_beq hd]
      · cases h

theorem afterChar?_subset {c : Char} {rest : { rest : List Char // rest.length < cs.length }}
    (h : afterChar? c cs = some rest) : rest.1 ⊆ cs := by
  have hcons := eq_cons_of_afterChar? h
  intro d hd
  rw [hcons]
  exact List.mem_cons_of_mem _ hd

theorem until?_subset {mark : List Char} {rest : Rest cs}
    (h : until? mark cs = some (before, rest)) : before ⊆ cs ∧ rest.1 ⊆ cs := by
  induction cs generalizing before with
  | nil =>
      rw [until?_nil] at h
      split at h
      · cases h
        exact ⟨List.Subset.refl _, List.Subset.refl _⟩
      · cases h
  | cons c tail ih =>
      rcases until?_cons_cases mark c tail with ⟨-, hle, hhere⟩ | ⟨-, -, hnone⟩ |
        ⟨-, found, after, hle, hle', htail, hlater⟩
      · rw [hhere] at h
        cases h
        exact ⟨List.nil_subset _, List.drop_subset _ _⟩
      · rw [hnone] at h
        cases h
      · rw [hlater] at h
        cases h
        obtain ⟨hbefore, hafter⟩ := ih htail
        exact ⟨List.cons_subset_cons _ hbefore, List.subset_cons_of_subset _ hafter⟩

/-! ## Names -/

theorem simpleName_taken {rest : { rest : List Char // rest.length < cs.length }}
    (h : simpleName cs = .ok (name, rest)) : isSimpleName name = true ∧ cs = name ++ rest.1 := by
  cases cs with
  | nil => cases h
  | cons c tail =>
      rw [simpleName] at h
      split at h
      · rename_i hc
        cases h
        refine ⟨isSimpleName_cons.mpr ⟨hc, fun d hd => List.mem_takeWhile_imp hd⟩, ?_⟩
        rw [List.cons_append, List.takeWhile_append_dropWhile]
      · cases h

theorem qualifiedName_taken {rest : { rest : List Char // rest.length < cs.length }}
    (h : qualifiedName cs = .ok (name, rest)) : IsQualified name ∧ cs = name ++ rest.1 := by
  rw [qualifiedName] at h
  split at h
  · cases h
  · rename_i first after hlt hfirst
    obtain ⟨hsimple, hcs⟩ := simpleName_taken hfirst
    split at h
    · cases h
      exact ⟨.inl hsimple, hcs⟩
    · rename_i colon hlt' hcolon
      have hcolon := eq_cons_of_afterChar? hcolon
      split at h
      · cases h
      · rename_i second last hlt'' hsecond
        obtain ⟨hsimple', hlast⟩ := simpleName_taken hsecond
        cases h
        refine ⟨.inr ⟨first, second, rfl, hsimple, hsimple'⟩, hcs.trans ?_⟩
        dsimp only at hcolon hlast ⊢
        rw [hcolon, hlast, List.append_assoc, List.cons_append]

theorem simpleName_subset {rest : { rest : List Char // rest.length < cs.length }}
    (h : simpleName cs = .ok (name, rest)) : rest.1 ⊆ cs := by
  intro c hc
  rw [(simpleName_taken h).2]
  exact List.mem_append_right _ hc

theorem qualifiedName_subset {rest : { rest : List Char // rest.length < cs.length }}
    (h : qualifiedName cs = .ok (name, rest)) : rest.1 ⊆ cs := by
  intro c hc
  rw [(qualifiedName_taken h).2]
  exact List.mem_append_right _ hc

/-! ## What is not content -/

theorem comment_subset {rest : Rest cs} (h : comment cs = .ok rest) : rest.1 ⊆ cs := by
  rw [comment] at h
  split at h
  · cases h
  · rename_i before after hle huntil
    split at h
    · cases h
    · rename_i last hlt hlast
      cases h
      exact fun c hc => (until?_subset huntil).2 (afterChar?_subset hlast hc)

theorem instruction_subset {rest : Rest cs} (h : instruction cs = .ok rest) : rest.1 ⊆ cs := by
  rw [instruction] at h
  split at h
  · cases h
  · rename_i target after hlt htarget
    have hafter := simpleName_subset htarget
    split at h
    · cases h
    · split at h
      · rename_i last hle hlast
        cases h
        exact fun c hc => hafter (after?_subset hlast hc)
      · split at h
        · split at h
          · cases h
          · rename_i before last hle hlast
            cases h
            exact fun c hc => hafter ((until?_subset hlast).2 hc)
        · cases h

/-! ## References -/

theorem isLegal_of_legalChar? {n : Nat} {c : Char} (h : legalChar? n = some c) :
    isLegal c = true := by
  unfold legalChar? at h
  by_cases hn : n.isValidChar
  · rw [dif_pos hn] at h
    by_cases hlegal : isLegal (Char.ofNatAux n hn) = true
    · rw [if_pos hlegal] at h
      cases h
      exact hlegal
    · rw [if_neg hlegal] at h
      cases h
  · rw [dif_neg hn] at h
    cases h

theorem isLegal_of_ofBody {c : Char} (h : Reference.ofBody body = .ok (.char c)) :
    isLegal c = true := by
  unfold Reference.ofBody at h
  split at h
  · dsimp only at h
    split at h
    · cases h
    · split at h
      · cases h
      · rename_i hlegal
        cases h
        exact isLegal_of_legalChar? hlegal
  · split at h
    · dsimp only at h
      split at h
      · rename_i entry c' hfind
        cases h
        have hnamed : ∀ entry ∈ namedChars, isLegal entry.2 = true := by decide
        exact hnamed _ (List.mem_of_find?_eq_some hfind)
      · cases h
    · cases h

theorem reference_taken {r : Reference} {rest : Rest cs} (h : reference cs = .ok (r, rest)) :
    rest.1 ⊆ cs ∧ ∀ c, r = .char c → isLegal c = true := by
  rw [reference] at h
  split at h
  · cases h
  · rename_i body after huntil
    cases hbody : Reference.ofBody body with
    | error fault => rw [hbody] at h; cases h
    | ok r' =>
        rw [hbody] at h
        cases h
        refine ⟨(until?_subset huntil).2, fun c hc => ?_⟩
        rw [hc] at hbody
        exact isLegal_of_ofBody hbody

/-! ## Quoted values -/

theorem quotedValue_taken {value : List Char}
    {rest : { rest : List Char // rest.length < cs.length }}
    (h : quotedValue cs = .ok (value, rest)) : value ⊆ cs ∧ rest.1 ⊆ cs := by
  cases cs with
  | nil => cases h
  | cons c tail =>
      rw [quotedValue] at h
      split at h
      · split at h
        · cases h
        · rename_i value' after hle huntil
          cases h
          obtain ⟨hvalue, hafter⟩ := until?_subset huntil
          exact ⟨List.subset_cons_of_subset _ hvalue, List.subset_cons_of_subset _ hafter⟩
      · cases h

end Cuesheet.Xml
