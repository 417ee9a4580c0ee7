import Cuesheet.Proofs.Data.Entries
import Cuesheet.Proofs.Xml.Names

/-!
# Registered prefixes

A registry is `Proper` if it gives no namespace two prefixes and no prefix two namespaces, and
only such prefixes as may be bound. The registry that is there from the start is proper, and
registering the prefixes of a document keeps it so (`proper_registerAll`). Of the prefixes of a
document those are registered afterwards that it does not bind once more further on
(`mem_registerAll_iff`).
-/

namespace Cuesheet.Xml

/-- A prefix may be bound to a namespace. -/
structure Binds (uri label : String) : Prop where
  bindable : Bindable uri
  simple : isSimpleName label.toList = true
  unreserved : label ≠ "xmlns"
  xml_iff : label = "xml" ↔ uri = xmlUri

theorem Binds.faultless {uri label : String} (h : Binds uri label) :
    Scope.bindingFault? label uri = none := by
  have hempty : uri.isEmpty = false := String.isEmpty_eq_false_iff.mpr h.bindable.nonempty
  have hxml : ((label == "xml") != (uri == xmlUri)) = false := by
    by_cases hlabel : label = "xml"
    · simp [hlabel, h.xml_iff.mp hlabel]
    · simp [hlabel, mt h.xml_iff.mpr hlabel]
  simp [Scope.bindingFault?, h.unreserved, h.bindable.unreserved, hxml, hempty,
    h.bindable.unbraced]

/-! ## The last entry for a prefix -/

/-- A table has an entry, and nothing further on takes its namespace or its prefix. -/
def Retained (prefixes : Entries String String) (uri label : String) : Prop :=
  ∃ front back, prefixes = front ++ (uri, label) :: back ∧
    ∀ entry ∈ back, entry.1 ≠ uri ∧ entry.2 ≠ label

variable {prefixes : Entries String String} {uri label : String}

theorem Retained.mem (h : Retained prefixes uri label) : (uri, label) ∈ prefixes := by
  obtain ⟨front, back, rfl, -⟩ := h
  exact List.mem_append_right _ List.mem_cons_self

theorem retained_cons_iff {entry : String × String} :
    Retained (entry :: prefixes) uri label ↔ Retained prefixes uri label ∨
      entry = (uri, label) ∧ ∀ later ∈ prefixes, later.1 ≠ uri ∧ later.2 ≠ label := by
  constructor
  · rintro ⟨front, back, hsplit, hback⟩
    cases front with
    | nil =>
        obtain ⟨rfl, rfl⟩ := List.cons.inj hsplit
        exact .inr ⟨rfl, hback⟩
    | cons first front =>
        obtain ⟨rfl, rfl⟩ := List.cons.inj hsplit
        exact .inl ⟨front, back, rfl, hback⟩
  · rintro (⟨front, back, rfl, hback⟩ | ⟨rfl, hback⟩)
    · exact ⟨entry :: front, back, rfl, hback⟩
    · exact ⟨[], prefixes, rfl, hback⟩

/-- Where no namespace and no prefix stands twice, every entry is the last. -/
theorem retained_of_mem (huris : (List.map (·.1) prefixes).Nodup)
    (hlabels : (List.map (·.2) prefixes).Nodup) (h : (uri, label) ∈ prefixes) :
    Retained prefixes uri label := by
  obtain ⟨front, back, rfl⟩ := List.append_of_mem h
  rw [List.map_append, List.map_cons] at huris hlabels
  obtain ⟨huri, -⟩ := List.nodup_cons.mp (List.nodup_append.mp huris).2.1
  obtain ⟨hlabel, -⟩ := List.nodup_cons.mp (List.nodup_append.mp hlabels).2.1
  refine ⟨front, back, rfl, fun entry hentry => ⟨?_, ?_⟩⟩
  · intro heq
    exact huri (List.mem_map.mpr ⟨entry, hentry, heq⟩)
  · intro heq
    exact hlabel (List.mem_map.mpr ⟨entry, hentry, heq⟩)

namespace Registry

variable {registry registered : Registry}

structure Proper (registry : Registry) : Prop where
  binds : ∀ entry ∈ registry, Binds entry.1 entry.2
  unreserved : ∀ entry ∈ registry, isReserved entry.2 = false
  uris : (List.map (·.1) registry).Nodup
  labels : (List.map (·.2) registry).Nodup
  xml : (xmlUri, "xml") ∈ registry

theorem Proper.value?_eq_some_iff (h : Proper registry) :
    registry.value? uri = some label ↔ (uri, label) ∈ registry :=
  Entries.value?_eq_some_iff h.uris

theorem Proper.eq_of_label (h : Proper registry) {uri' : String}
    (hentry : (uri, label) ∈ registry) (hentry' : (uri', label) ∈ registry) : uri = uri' :=
  (Prod.mk.inj (List.inj_on_of_nodup_map h.labels hentry hentry' rfl)).1

/-- What makes a prefix one that may be bound, as a check. -/
def mayBind (uri label : String) : Bool :=
  uri != "" && uri != xmlnsUri && !uri.toList.contains '\x7d' && uri.toList.all isLegal &&
    isSimpleName label.toList && label != "xmlns" && (label == "xml") == (uri == xmlUri)

theorem binds_of_mayBind (h : mayBind uri label = true) : Binds uri label := by
  simp only [mayBind, Bool.and_eq_true, bne_iff_ne, Bool.not_eq_true', beq_iff_eq,
    List.contains_eq_mem, decide_eq_false_iff_not] at h
  obtain ⟨⟨⟨⟨⟨⟨hempty, huri⟩, hbrace⟩, hlegal⟩, hsimple⟩, hlabel⟩, hxml⟩ := h
  refine ⟨⟨hempty, huri, hbrace, allLegal_iff_all.mpr hlegal⟩, hsimple, hlabel, ?_⟩
  rw [← beq_iff_eq, hxml, beq_iff_eq]

theorem proper_wellKnown : Proper wellKnown := by
  have hbinds : wellKnown.all (fun entry => mayBind entry.1 entry.2) = true := by decide +kernel
  have hreserved : wellKnown.all (fun entry => !isReserved entry.2) = true := by decide +kernel
  refine ⟨fun entry hentry => ?_, fun entry hentry => ?_, ?_, ?_, List.mem_cons_self⟩
  · exact binds_of_mayBind (List.all_eq_true.mp hbinds entry hentry)
  · simpa using List.all_eq_true.mp hreserved entry hentry
  · decide +kernel
  · decide +kernel

/-! ## What is registered -/

/-- Registering a prefix leaves the entries with another namespace and another prefix. -/
theorem register_ok (uri label : String) {uri' label' : String}
    (h : registry.register uri' label' = .ok registered) :
    isReserved label' = false ∧ ((uri, label) ∈ registered ↔
      (uri', label') = (uri, label) ∨ (uri, label) ∈ registry ∧ uri' ≠ uri ∧ label' ≠ label) := by
  rw [register] at h
  split at h
  · cases h
  · rename_i hreserved
    cases h
    refine ⟨by simpa using hreserved, ?_⟩
    rw [List.mem_append, List.mem_filter, List.mem_singleton]
    constructor
    · rintro (⟨hmem, hother⟩ | heq)
      · obtain ⟨huri, hlabel⟩ : uri ≠ uri' ∧ label ≠ label' := by simpa using hother
        exact .inr ⟨hmem, huri.symm, hlabel.symm⟩
      · exact .inl heq.symm
    · rintro (heq | ⟨hmem, huri, hlabel⟩)
      · exact .inr heq.symm
      · exact .inl ⟨hmem, by simp [huri.symm, hlabel.symm]⟩

/-- What is registered after the prefixes of a document are: those that it does not bind once more
further on, and what was registered before with another namespace and another prefix. -/
theorem mem_registerAll_iff (h : registry.registerAll prefixes = (registered, none)) :
    (uri, label) ∈ registered ↔ Retained prefixes uri label ∨
      (uri, label) ∈ registry ∧ ∀ entry ∈ prefixes, entry.1 ≠ uri ∧ entry.2 ≠ label := by
  induction prefixes generalizing registry with
  | nil =>
      cases h
      constructor
      · exact fun hmem => .inr ⟨hmem, nofun⟩
      · rintro (⟨front, back, hsplit, -⟩ | ⟨hmem, -⟩)
        · simp at hsplit
        · exact hmem
  | cons first rest ih =>
      obtain ⟨uri', label'⟩ := first
      rw [registerAll] at h
      split at h
      · cases h
      · rename_i next hregister
        have hnext := (register_ok uri label hregister).2
        rw [ih h, hnext, retained_cons_iff, List.forall_mem_cons]
        constructor
        · rintro (hretained | ⟨heq | ⟨hmem, hne⟩, hrest⟩)
          · exact .inl (.inl hretained)
          · exact .inl (.inr ⟨heq, hrest⟩)
          · exact .inr ⟨hmem, hne, hrest⟩
        · rintro ((hretained | ⟨heq, hrest⟩) | ⟨hmem, hne, hrest⟩)
          · exact .inl hretained
          · exact .inr ⟨.inl heq, hrest⟩
          · exact .inr ⟨.inr ⟨hmem, hne⟩, hrest⟩

theorem proper_register {uri' label' : String} (h : Proper registry)
    (hbinds : Binds uri' label') (hregister : registry.register uri' label' = .ok registered) :
    Proper registered := by
  have hmem : ∀ entry ∈ registered, (uri', label') = entry ∨
      entry ∈ registry ∧ uri' ≠ entry.1 ∧ label' ≠ entry.2 :=
    fun entry hentry => (register_ok entry.1 entry.2 hregister).2.mp hentry
  have hxmlMem := (register_ok xmlUri "xml" hregister).2
  have hreserved := (register_ok uri' label' hregister).1
  rw [register, if_neg (by simp [hreserved])] at hregister
  refine ⟨fun entry hentry => ?_, fun entry hentry => ?_, ?_, ?_, ?_⟩
  · rcases hmem entry hentry with rfl | ⟨hold, -⟩
    · exact hbinds
    · exact h.binds entry hold
  · rcases hmem entry hentry with rfl | ⟨hold, -⟩
    · exact hreserved
    · exact h.unreserved entry hold
  · cases hregister
    rw [List.map_append, List.nodup_append]
    refine ⟨h.uris.sublist (List.filter_sublist.map _), List.nodup_singleton _, ?_⟩
    rintro uri hold uri'' hnew rfl
    obtain ⟨entry, hentry, rfl⟩ := List.mem_map.mp hold
    have hne := (List.mem_filter.mp hentry).2
    simp_all
  · cases hregister
    rw [List.map_append, List.nodup_append]
    refine ⟨h.labels.sublist (List.filter_sublist.map _), List.nodup_singleton _, ?_⟩
    rintro label hold label'' hnew rfl
    obtain ⟨entry, hentry, rfl⟩ := List.mem_map.mp hold
    have hne := (List.mem_filter.mp hentry).2
    simp_all
  · refine hxmlMem.mpr ?_
    by_cases hxml : uri' = xmlUri
    · exact .inl (by rw [hxml, hbinds.xml_iff.mpr hxml])
    · exact .inr ⟨h.xml, hxml, mt hbinds.xml_iff.mp hxml⟩

/-- Also up to a prefix that cannot be registered. -/
theorem proper_registerAll (h : Proper registry)
    (hprefixes : ∀ entry ∈ prefixes, Binds entry.1 entry.2) :
    Proper (registry.registerAll prefixes).1 := by
  induction prefixes generalizing registry with
  | nil => exact h
  | cons first rest ih =>
      obtain ⟨hfirst, hrest⟩ := List.forall_mem_cons.mp hprefixes
      rw [registerAll]
      split
      · exact h
      · rename_i next hregister
        exact ih (proper_register h hfirst hregister) hrest

/-! ## Registering once more -/

/-- The prefixes of a table before the first that is reserved. -/
def admissible (prefixes : Entries String String) : List (String × String) :=
  List.takeWhile (fun entry => !isReserved entry.2) prefixes

/-- Whether an entry outlasts the registration of others. -/
def outlasts (entries : List (String × String)) (entry : String × String) : Bool :=
  entries.all fun other => !(entry.1 == other.1 || entry.2 == other.2)

/-- Registering prefixes drops earlier entries, wherever these stand, and treats the others as if
they were not there. -/
theorem registerAll_append (front back : Registry) (prefixes : Entries String String) :
    registerAll (front ++ back) prefixes =
      (List.filter (outlasts (admissible prefixes)) front ++ (registerAll back prefixes).1,
        (registerAll back prefixes).2) := by
  induction prefixes generalizing front back with
  | nil =>
      have hall : List.filter (outlasts (admissible [])) front = front :=
        List.filter_eq_self.mpr fun _ _ => rfl
      rw [hall]
      rfl
  | cons first rest ih =>
      obtain ⟨uri, label⟩ := first
      rw [registerAll, registerAll, register, register]
      by_cases hreserved : isReserved label = true
      · have hnone : admissible ((uri, label) :: rest) = [] := by
          rw [admissible, List.takeWhile_cons, hreserved]
          rfl
        have hall : List.filter (outlasts []) front = front :=
          List.filter_eq_self.mpr fun _ _ => rfl
        rw [if_pos hreserved, if_pos hreserved, hnone, hall]
      · have hfirst : admissible ((uri, label) :: rest) = (uri, label) :: admissible rest := by
          rw [admissible, List.takeWhile_cons, Bool.eq_false_iff.mpr hreserved]
          rfl
        rw [if_neg hreserved, if_neg hreserved, hfirst]
        dsimp only
        rw [List.filter_append, List.append_assoc, ih, List.filter_filter]
        congr 2
        refine List.filter_congr fun entry _ => ?_
        rw [outlasts, outlasts, List.all_cons, Bool.and_comm]

theorem mem_of_mem_registerAll {entry : String × String}
    (h : entry ∈ (registry.registerAll prefixes).1) :
    entry ∈ registry ∨ entry ∈ admissible prefixes := by
  induction prefixes generalizing registry with
  | nil => exact .inl h
  | cons first rest ih =>
      obtain ⟨uri, label⟩ := first
      rw [registerAll, register] at h
      by_cases hreserved : isReserved label = true
      · rw [if_pos hreserved] at h
        exact .inl h
      · rw [if_neg hreserved] at h
        rw [admissible, List.takeWhile_cons, Bool.eq_false_iff.mpr hreserved]
        rcases ih h with hmem | hmem
        · rcases List.mem_append.mp hmem with hmem | hmem
          · exact .inl (List.mem_filter.mp hmem).1
          · rw [List.mem_singleton.mp hmem]
            exact .inr List.mem_cons_self
        · exact .inr (List.mem_cons_of_mem _ hmem)

/-- Registering the same prefixes once more changes nothing. -/
theorem registerAll_again (registry : Registry) (prefixes : Entries String String) :
    (registry.registerAll prefixes).1.registerAll prefixes = registry.registerAll prefixes := by
  have hnone : ∀ own : Registry, (∀ entry ∈ own, entry ∈ admissible prefixes) →
      List.filter (outlasts (admissible prefixes)) own = [] := by
    refine fun own hown => List.filter_eq_nil_iff.mpr fun entry hmem hlasts => ?_
    have hself := List.all_eq_true.mp hlasts entry (hown entry hmem)
    simp at hself
  have hown : ∀ entry ∈ (registerAll [] prefixes).1, entry ∈ admissible prefixes :=
    fun entry hmem => (mem_of_mem_registerAll hmem).resolve_left List.not_mem_nil
  have hsplit := registerAll_append registry [] prefixes
  rw [List.append_nil] at hsplit
  have hagain := registerAll_append (registerAll [] prefixes).1 [] prefixes
  rw [List.append_nil, hnone _ hown, List.nil_append] at hagain
  rw [hsplit, registerAll_append, hagain, List.filter_filter]
  simp only [Bool.and_self]

end Registry

end Cuesheet.Xml
