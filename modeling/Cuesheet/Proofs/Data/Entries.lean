import Cuesheet.Data.Entries
import Mathlib.Data.List.Nodup

/-!
# Entries and their keys

What putting a value and dropping keys does to the keys of some entries. Where no key stands twice,
the value of a key is the one that stands with it.
-/

namespace Cuesheet.Entries

variable {α β : Type} [BEq α] [LawfulBEq α] {entries : Entries α β} {key key' : α} {value : β}

omit [LawfulBEq α] [BEq α] in
theorem mem_keys : key ∈ entries.keys ↔ ∃ value, (key, value) ∈ entries := by
  simp [keys]

theorem mem_keys_put : key' ∈ (entries.put key value).keys ↔ key' ∈ entries.keys ∨ key' = key := by
  induction entries with
  | nil => simp [put, keys]
  | cons entry rest ih =>
      rw [put]
      split
      · rename_i h
        have hkey := eq_of_beq h
        simp only [keys, List.map_cons, List.mem_cons, hkey]
        constructor
        · exact .inl
        · rintro (hmem | rfl)
          · exact hmem
          · exact .inl rfl
      · simp only [keys, List.map_cons, List.mem_cons] at ih ⊢
        rw [ih, or_assoc]

theorem nodup_keys_put (h : entries.keys.Nodup) : (entries.put key value).keys.Nodup := by
  induction entries with
  | nil => simp [put, keys]
  | cons entry rest ih =>
      rw [put]
      split
      · exact h
      · rename_i hne
        have hcons : entry.1 ∉ Entries.keys rest ∧ (Entries.keys rest).Nodup := List.nodup_cons.mp h
        refine List.nodup_cons.mpr ⟨fun hmem => ?_, ih hcons.2⟩
        rcases mem_keys_put.mp hmem with hmem | heq
        · exact hcons.1 hmem
        · exact hne (beq_iff_eq.mpr heq)

theorem mem_of_value? (h : entries.value? key = some value) : (key, value) ∈ entries := by
  obtain ⟨entry, hfind, rfl⟩ := Option.map_eq_some_iff.mp h
  have hkey : (entry.1 == key) = true :=
    List.find?_some (p := fun entry : α × β => entry.1 == key) hfind
  rw [← eq_of_beq hkey]
  exact List.mem_of_find?_eq_some hfind

theorem value?_eq_none_iff : entries.value? key = none ↔ key ∉ entries.keys := by
  unfold value?
  rw [Option.map_eq_none_iff, List.find?_eq_none]
  constructor
  · intro h hmem
    obtain ⟨value, hmem⟩ := mem_keys.mp hmem
    exact absurd (beq_self_eq_true key) (h (key, value) hmem)
  · intro h entry hmem hkey
    refine h (mem_keys.mpr ⟨entry.2, ?_⟩)
    rw [← eq_of_beq hkey]
    exact hmem

theorem value?_eq_some_iff (h : entries.keys.Nodup) :
    entries.value? key = some value ↔ (key, value) ∈ entries := by
  refine ⟨mem_of_value?, fun hmem => ?_⟩
  induction entries with
  | nil => cases hmem
  | cons entry rest ih =>
      have hcons : entry.1 ∉ Entries.keys rest ∧ (Entries.keys rest).Nodup := List.nodup_cons.mp h
      rw [value?_cons]
      rcases List.mem_cons.mp hmem with rfl | hmem
      · rw [if_pos (beq_self_eq_true key)]
      · rw [if_neg, ih hcons.2 hmem]
        intro hkey
        refine hcons.1 (mem_keys.mpr ⟨value, ?_⟩)
        rw [eq_of_beq hkey]
        exact hmem

omit [LawfulBEq α] in
/-- Putting the value that is there changes nothing. -/
theorem put_of_value? (h : entries.value? key = some value) : entries.put key value = entries := by
  induction entries with
  | nil => cases h
  | cons entry rest ih =>
      rw [value?_cons] at h
      rw [put]
      split at h
      · rename_i hkey
        rw [if_pos hkey, ← Option.some.inj h]
      · rename_i hkey
        rw [if_neg hkey, ih h]

/-- Nor does putting all entries where each has the value that is there. -/
theorem putAll_self (h : entries.keys.Nodup) : entries.putAll entries = entries := by
  have hputs : ∀ more : Entries α β, (∀ entry ∈ more, entry ∈ entries) →
      entries.putAll more = entries := by
    intro more hmore
    induction more with
    | nil => rfl
    | cons entry rest ih =>
        obtain ⟨hentry, hrest⟩ := List.forall_mem_cons.mp hmore
        rw [putAll, List.foldl_cons, put_of_value? ((value?_eq_some_iff h).mpr hentry)]
        exact ih hrest
  exact hputs entries fun _ hmem => hmem

theorem put_of_notMem (h : key ∉ entries.keys) :
    entries.put key value = entries ++ [(key, value)] := by
  induction entries with
  | nil => rfl
  | cons entry rest ih =>
      obtain ⟨hentry, hrest⟩ : key ≠ entry.1 ∧ key ∉ Entries.keys rest :=
        not_or.mp (mt List.mem_cons.mpr h)
      rw [put, if_neg (by simpa using hentry.symm), ih hrest, List.cons_append]

/-- Dropping entries by their keys drops the values of these keys. -/
theorem value?_filter (keep : α → Bool) :
    Entries.value? (List.filter (fun entry => keep entry.1) entries) key =
      if keep key then entries.value? key else none := by
  induction entries with
  | nil => simp
  | cons entry rest ih =>
      rw [List.filter_cons]
      by_cases hkey : (entry.1 == key) = true
      · have heq := eq_of_beq hkey
        split
        · rename_i hkeep
          rw [value?_cons, value?_cons, if_pos hkey, if_pos hkey, ← heq, if_pos hkeep]
        · rename_i hkeep
          rw [ih, ← heq, if_neg hkeep, if_neg hkeep]
      · have hdrop : Entries.value? (entry :: rest) key = Entries.value? rest key := by
          rw [value?_cons, if_neg hkey]
        split
        · rw [value?_cons, if_neg hkey, ih, hdrop]
        · rw [ih, hdrop]

end Cuesheet.Entries
