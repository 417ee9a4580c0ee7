import Cuesheet.Data.Attribute
import Cuesheet.Proofs.Data.Entries

/-!
# Maps in attributes

Where an object has a key more than once the last value counts, so that no key of a map that is
read from an attribute stands twice (`Attribute.nodup_of_map?`). Of a map that is cascaded over another
one every key has its value, and of the other one those that the first has not (`at?_cascade`).
-/

namespace Cuesheet

/-! ## Putting all entries -/

namespace Entries

variable {α β : Type} [BEq α] [LawfulBEq α]

/-- New keys go to the end. -/
theorem putAll_of_nodup (entries : Entries α β) {more : Entries α β}
    (h : (entries ++ more : Entries α β).keys.Nodup) :
    entries.putAll more = entries ++ more := by
  induction more generalizing entries with
  | nil => exact (List.append_nil _).symm
  | cons entry rest ih =>
      have hentry : entry.1 ∉ entries.keys := fun hmem => by
        rw [keys, List.map_append] at h
        exact List.disjoint_of_nodup_append h hmem List.mem_cons_self
      have hput : entries.putAll (entry :: rest) = (entries.put entry.1 entry.2).putAll rest := rfl
      rw [hput, put_of_notMem hentry, ih (entries ++ [entry]) (by rwa [List.append_assoc]),
        List.append_assoc]
      rfl

theorem ofList_of_nodup {pairs : List (α × β)} (h : (keys pairs).Nodup) : ofList pairs = pairs :=
  putAll_of_nodup [] h

/-- What is put counts, and what was there counts for the other keys. -/
theorem value?_putAll (entries : Entries α β) {more : Entries α β} (h : more.keys.Nodup)
    (key : α) :
    (entries.putAll more).value? key = (more.value? key).or (entries.value? key) := by
  induction more generalizing entries with
  | nil => rfl
  | cons entry rest ih =>
      obtain ⟨hentry, hrest⟩ : entry.1 ∉ Entries.keys rest ∧ (Entries.keys rest).Nodup :=
        List.nodup_cons.mp h
      have hput : entries.putAll (entry :: rest) = (entries.put entry.1 entry.2).putAll rest := rfl
      rw [hput, ih _ hrest, value?_put, value?_cons]
      split
      · rename_i hkey
        have hnone : Entries.value? rest key = none := by
          rw [← eq_of_beq hkey]
          exact value?_eq_none_iff.mpr hentry
        rw [hnone]
        rfl
      · rfl

end Entries

/-! ## Maps over maps -/

namespace Fields

/-- What a map holds for a key, if there is a map. -/
def at? (fields : Option Fields) (key : String) : Option Datum :=
  fields.bind fun fields => Entries.value? fields key

theorem at?_cascade (parent : Option Fields) {child : Option Fields}
    (h : ∀ fields ∈ child, (Entries.keys fields).Nodup) (key : String) :
    at? (cascade parent child) key = (at? child key).or (at? parent key) := by
  cases child with
  | none => rcases parent with _ | (_ | _) <;> rfl
  | some child =>
      have hput := fun parent : Fields => Entries.value?_putAll parent (h child rfl) key
      rcases parent with _ | (_ | ⟨entry, rest⟩)
      · exact (Option.or_none).symm
      · exact (Option.or_none).symm
      · exact hput (entry :: rest)

end Fields

/-! ## Maps that are read -/

namespace Datum

namespace Reader

/-- Fields that are added to others, whose keys are distinct, have distinct keys. -/
theorem nodup_of_fields {cs : List Char} {read fs : Fields}
    {rest : { rest : List Char // rest.length < cs.length }}
    (h : fields read cs = .ok (fs, rest)) (hread : (Entries.keys read).Nodup) :
    (Entries.keys fs).Nodup := by
  rw [fields] at h
  split at h
  · cases h
  · cases h
  · split at h
    · cases h
    · split at h
      · cases h
      · split at h
        · cases h
          exact Entries.nodup_keys_put hread
        · split at h
          · cases h
          · split at h
            · cases h
            · rename_i hfields
              cases h
              exact nodup_of_fields hfields (Entries.nodup_keys_put hread)
termination_by cs.length
decreasing_by omega

theorem scalar_ne_map {cs : List Char} {fs : Fields}
    {rest : { rest : List Char // rest.length < cs.length }} :
    scalar cs ≠ .ok (.map fs, rest) := by
  intro h
  unfold scalar at h
  split at h
  · rename_i hfind
    have hword := List.mem_of_find?_eq_some hfind
    dsimp only at h
    split at h
    · cases h
      simp [wordValues] at hword
    · cases h
  · split at h
    · cases h
    · cases h
    · dsimp only at h
      split at h <;> cases h

theorem nodup_of_value {cs : List Char} {fs : Fields}
    {rest : { rest : List Char // rest.length < cs.length }}
    (h : value cs = .ok (.map fs, rest)) : (Entries.keys fs).Nodup := by
  rw [value] at h
  split at h
  · cases h
  · cases h
  · split at h
    · split at h
      · cases h
      · split at h <;> cases h
    · split at h
      · split at h
        · cases h
          exact List.nodup_nil
        · split at h
          · cases h
          · rename_i hfields
            cases h
            exact nodup_of_fields hfields List.nodup_nil
      · split at h
        · cases h
        · rename_i hscalar
          cases h
          exact absurd hscalar scalar_ne_map

end Reader

theorem nodup_of_ofText {s : String} {fs : Fields} (h : ofText s = .ok (.map fs)) :
    (Entries.keys fs).Nodup := by
  unfold ofText at h
  split at h
  · cases h
  · split at h
    · cases h
    · rename_i hvalue
      split at h
      · cases h
        exact Reader.nodup_of_value hvalue
      · cases h

end Datum

theorem Attribute.nodup_of_map? {raw : Option String} {fs : Fields}
    (h : Attribute.map? raw = .ok (some fs)) : (Entries.keys fs).Nodup := by
  unfold Attribute.map? at h
  split at h
  · cases h
  · split at h
    · cases h
    · split at h
      · cases h
      · cases h
      · rename_i htext
        cases h
        exact Datum.nodup_of_ofText htext
      · cases h

end Cuesheet
