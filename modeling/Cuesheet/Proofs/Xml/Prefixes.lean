import Cuesheet.Proofs.Xml.Sound

/-!
# The prefixes of a document that was read

A document keeps the first prefix of every namespace that its text binds, and no default namespace.
Of what may be bound that leaves what may be registered (`Source.binds_of_prefixes`). Where every
namespace is bound once, to a prefix, nothing is left out (`Source.prefixes_of_nodup`).
-/

namespace Cuesheet.Xml

namespace Source

/-- Keeps a binding unless it is that of a default namespace or of a namespace met before. -/
def keepFirst (table : Entries String String) (binding : String × String) :
    Entries String String :=
  if binding.1.isEmpty || table.hasKey binding.2 then table
  else table.put binding.2 binding.1

theorem prefixes_eq (source : Source) :
    source.prefixes = source.bindings.foldl keepFirst [] := rfl

theorem hasKey_iff {table : Entries String String} {uri : String} :
    table.hasKey uri = true ↔ uri ∈ table.keys := by
  simp [Entries.hasKey, Entries.keys]

theorem keepFirst_cases (table : Entries String String) (label uri : String) :
    keepFirst table (label, uri) = table ∧ (label = "" ∨ uri ∈ table.keys) ∨
      keepFirst table (label, uri) = table ++ [(uri, label)] ∧ label ≠ "" ∧
        uri ∉ table.keys := by
  unfold keepFirst
  split
  · rename_i h
    rw [Bool.or_eq_true, hasKey_iff] at h
    simp only [String.isEmpty_iff] at h
    exact .inl ⟨rfl, h⟩
  · rename_i h
    rw [Bool.or_eq_true, hasKey_iff] at h
    simp only [String.isEmpty_iff] at h
    obtain ⟨hlabel, huri⟩ := not_or.mp h
    exact .inr ⟨Entries.put_of_notMem huri, hlabel, huri⟩

theorem foldl_keepFirst_binds {bindings : List (String × String)} {table : Entries String String}
    (hbindings : Scope.Sound bindings) (htable : ∀ entry ∈ table, Binds entry.1 entry.2)
    (hkeys : table.keys.Nodup) :
    (∀ entry ∈ bindings.foldl keepFirst table, Binds entry.1 entry.2) ∧
      (bindings.foldl keepFirst table).keys.Nodup := by
  induction bindings generalizing table with
  | nil => exact ⟨htable, hkeys⟩
  | cons binding rest ih =>
      obtain ⟨label, uri⟩ := binding
      have hrest : Scope.Sound rest := fun entry hentry => hbindings entry (.tail _ hentry)
      rw [List.foldl_cons]
      rcases keepFirst_cases table label uri with ⟨heq, -⟩ | ⟨heq, hlabel, huri⟩
      · rw [heq]
        exact ih hrest htable hkeys
      · rw [heq]
        have hbinds : Binds uri label := by
          rcases hbindings (label, uri) List.mem_cons_self with ⟨hempty, -⟩ | hbinds
          · exact absurd hempty hlabel
          · exact hbinds
        refine ih hrest ?_ ?_
        · intro entry hentry
          rcases List.mem_append.mp hentry with hentry | hentry
          · exact htable entry hentry
          · rw [List.mem_singleton.mp hentry]
            exact hbinds
        · have hsnoc : Entries.keys (table ++ [(uri, label)]) = table.keys ++ [uri] := by
            simp [Entries.keys]
          rw [hsnoc, List.nodup_append]
          refine ⟨hkeys, List.nodup_singleton _, ?_⟩
          rintro key hkey uri' huri' rfl
          rw [List.mem_singleton.mp huri'] at hkey
          exact huri hkey

/-- The prefixes of a sound document may be bound, and none of its namespaces has two. -/
theorem binds_of_prefixes {source : Source} (h : Scope.Sound source.bindings) :
    (∀ entry ∈ source.prefixes, Binds entry.1 entry.2) ∧ source.prefixes.keys.Nodup := by
  rw [prefixes_eq]
  exact foldl_keepFirst_binds h nofun List.nodup_nil

theorem foldl_keepFirst_of_nodup {bindings : List (String × String)}
    {table : Entries String String} (hlabels : ∀ entry ∈ bindings, entry.1 ≠ "")
    (huris : (table.keys ++ bindings.map (·.2)).Nodup) :
    bindings.foldl keepFirst table = table ++ bindings.map fun entry => (entry.2, entry.1) := by
  induction bindings generalizing table with
  | nil => simp
  | cons binding rest ih =>
      obtain ⟨label, uri⟩ := binding
      obtain ⟨hlabel, hrest⟩ := List.forall_mem_cons.mp hlabels
      have hfresh : uri ∉ table.keys := by
        intro hmem
        exact (List.nodup_append.mp huris).2.2 uri hmem uri List.mem_cons_self rfl
      have hstep : keepFirst table (label, uri) = table ++ [(uri, label)] := by
        rcases keepFirst_cases table label uri with ⟨-, hempty | hmem⟩ | ⟨heq, -⟩
        · exact absurd hempty hlabel
        · exact absurd hmem hfresh
        · exact heq
      have hkeys : Entries.keys (table ++ [(uri, label)]) ++ rest.map (·.2) =
          table.keys ++ ((label, uri) :: rest).map (·.2) := by
        simp [Entries.keys]
      rw [List.foldl_cons, hstep, ih hrest (by rw [hkeys]; exact huris)]
      simp

/-- Where every namespace is bound once, to a prefix, all are kept. -/
theorem prefixes_of_nodup {source : Source} (hlabels : ∀ entry ∈ source.bindings, entry.1 ≠ "")
    (huris : (source.bindings.map (·.2)).Nodup) :
    source.prefixes = source.bindings.map fun entry => (entry.2, entry.1) := by
  rw [prefixes_eq, foldl_keepFirst_of_nodup hlabels (by simpa [Entries.keys] using huris)]
  rfl

end Source

end Cuesheet.Xml
