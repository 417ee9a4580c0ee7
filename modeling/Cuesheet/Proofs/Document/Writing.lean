import Cuesheet.Document.Basic

/-!
# Which documents can be written

Two things keep a document from being written, and no others (`Document.write_ok_iff`): a prefix
of the form that is kept for numbered namespaces, and a name that begins with a brace and never
closes it. What is registered already does not matter.
-/

namespace Cuesheet

namespace Xml

theorem splitAtFirst_isSome {mark : Char} {cs : List Char} :
    (splitAtFirst mark cs).isSome = true ↔ mark ∈ cs := by
  induction cs with
  | nil => simp [splitAtFirst]
  | cons c rest ih =>
      rw [splitAtFirst, List.mem_cons]
      split
      · rename_i h
        simp [eq_of_beq h]
      · rename_i h
        rw [Option.isSome_map, ih]
        constructor
        · exact .inr
        · rintro (rfl | hmem)
          · exact absurd (beq_self_eq_true mark) h
          · exact hmem

theorem splitAtLast_isSome {mark : Char} {cs : List Char} :
    (splitAtLast mark cs).isSome = true ↔ mark ∈ cs := by
  rw [splitAtLast, Option.isSome_map, splitAtFirst_isSome, List.mem_reverse]

/-- If a name begins with a brace, a closing one follows. -/
def Closed (name : String) : Prop := ∀ rest, name.toList = '\x7b' :: rest → '\x7d' ∈ rest

theorem splitExpanded_ok_iff {name : String} :
    (∃ parts, splitExpanded name = .ok parts) ↔ Closed name := by
  unfold splitExpanded Closed
  split
  · rename_i rest hname
    cases hsplit : splitAtLast '\x7d' rest with
    | none =>
        constructor
        · rintro ⟨parts, hparts⟩
          cases hparts
        · intro hclosed
          have hsome := splitAtLast_isSome.mpr (hclosed rest hname)
          rw [hsplit] at hsome
          cases hsome
    | some parts =>
        have hmem : '\x7d' ∈ rest := splitAtLast_isSome.mp (by rw [hsplit]; rfl)
        constructor
        · intro _ rest' hname'
          obtain ⟨-, rfl⟩ := List.cons.inj (hname.symm.trans hname')
          exact hmem
        · intro _
          exact ⟨_, rfl⟩
  · rename_i hnot
    constructor
    · intro _ rest hname
      exact absurd hname (hnot rest)
    · intro _
      exact ⟨_, rfl⟩

namespace Registry

theorem registerAll_eq_none_iff (registry : Registry) (prefixes : Entries String String) :
    (registry.registerAll prefixes).2 = none ↔
      ∀ entry ∈ prefixes, isReserved entry.2 = false := by
  induction prefixes generalizing registry with
  | nil => simp [registerAll]
  | cons entry rest ih =>
      obtain ⟨uri, label⟩ := entry
      rw [registerAll, register, List.forall_mem_cons]
      cases hreserved : isReserved label with
      | true => simp
      | false => simpa using ih _

end Registry

namespace Labels

theorem meet_ok_iff (registry : Registry) (labels : Labels) {name : String} :
    (∃ labels', meet registry labels name = .ok labels') ↔ Closed name := by
  rw [← splitExpanded_ok_iff]
  unfold meet
  cases splitExpanded name with
  | error fault => simp
  | ok parts =>
      obtain ⟨uri, part⟩ := parts
      cases uri with
      | none => simp
      | some uri => simp

theorem foldlM_meet_ok_iff (registry : Registry) (labels : Labels) (names : List String) :
    (∃ labels', names.foldlM (meet registry) labels = .ok labels') ↔
      ∀ name ∈ names, Closed name := by
  induction names generalizing labels with
  | nil => exact ⟨fun _ => nofun, fun _ => ⟨labels, rfl⟩⟩
  | cons name rest ih =>
      rw [List.forall_mem_cons, List.foldlM_cons,
        ← meet_ok_iff registry labels]
      cases meet registry labels name with
      | error fault =>
          constructor
          · rintro ⟨labels', h⟩
            cases h
          · rintro ⟨⟨labels', h⟩, -⟩
            cases h
      | ok labels' =>
          rw [← ih labels']
          exact ⟨fun h => ⟨⟨labels', rfl⟩, h⟩, fun h => h.2⟩

end Labels

end Xml

namespace Document

/-- No prefix is one of those that are kept, and every name that opens a brace closes it. -/
structure Writable (doc : Document) : Prop where
  prefixes : ∀ entry ∈ doc.prefixes, Xml.Registry.isReserved entry.2 = false
  names : ∀ name ∈ Xml.Labels.names doc.tree.root, Xml.Closed name

theorem write_ok_iff (registry : Xml.Registry) (doc : Document) :
    (∃ text, (doc.write registry).2 = .ok text) ↔ doc.Writable := by
  have hprefixes := Xml.Registry.registerAll_eq_none_iff registry doc.prefixes
  have hnames := Xml.Labels.foldlM_meet_ok_iff (registry.registerAll doc.prefixes).1 []
    (Xml.Labels.names doc.tree.root)
  unfold write
  cases hregister : registry.registerAll doc.prefixes with
  | mk registered fault =>
      rw [hregister] at hprefixes hnames
      cases fault with
      | some fault =>
          constructor
          · rintro ⟨text, h⟩
            cases h
          · intro h
            cases hprefixes.mpr h.prefixes
      | none =>
          simp only [Xml.render, Xml.Labels.ofTree] at hnames ⊢
          constructor
          · rintro ⟨text, h⟩
            refine ⟨hprefixes.mp rfl, hnames.mp ?_⟩
            cases hlabels : (Xml.Labels.names doc.tree.root).foldlM
                (Xml.Labels.meet registered) [] with
            | error fault => rw [hlabels] at h; cases h
            | ok labels => exact ⟨labels, rfl⟩
          · intro h
            obtain ⟨labels, hlabels⟩ := hnames.mpr h.names
            rw [hlabels]
            exact ⟨_, rfl⟩

end Document

end Cuesheet
