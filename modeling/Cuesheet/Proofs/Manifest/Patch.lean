import Cuesheet.Manifest.Patch
import Cuesheet.Proofs.Data.Entries
import Cuesheet.Proofs.Data.Outcomes

/-!
# Reading patches and their manifests

A map should be refused as a patch or come to the patch that its operation names, with the values
that are given for its fields (`PatchOf`). A read can also end in a fault that refuses nothing: the
operation is a list or a map, or an integer has to be written that is too long for it, be it in a
message or as the value of an attribute (`Patch.Breaks`). A manifest inherits this from its entries,
and has one more place of the kind: an entry that is no map is shown in a message
(`PatchManifest.Breaks`). Nothing else can go wrong, in maps or manifests (`patches_settle_iff`).
-/

namespace Cuesheet

namespace Patch

variable {data values : Fields} {op : String} {fields : List Field} {fault : PatchFault}

/-! ## Fields that are given -/

/-- What is given for a field, the camel-case spelling first. -/
def either (data : Fields) (wire plain : String) : Option Datum :=
  (data.value? wire).or (data.value? plain)

/-- The operation that is given; null if there is none. -/
def opOf (data : Fields) : Datum := (data.value? "op").getD .null

theorem given_error (h : given op data fields = .error fault) :
    ∃ field ∈ fields, field.required = true ∧ either data field.wire field.plain = none ∧
      fault = .missingField op field.wire := by
  induction fields with
  | nil => cases h
  | cons field rest ih =>
      have hlater : given op data rest = .error fault → ∃ other ∈ field :: rest,
          other.required = true ∧ either data other.wire other.plain = none ∧
            fault = .missingField op other.wire := fun h => by
        obtain ⟨other, hother, hmissing⟩ := ih h
        exact ⟨other, List.mem_cons_of_mem _ hother, hmissing⟩
      rw [given] at h
      split at h
      · exact hlater (map_error_iff.mp h)
      · rename_i hvalue
        split at h
        · rename_i hrequired
          cases h
          exact ⟨field, List.mem_cons_self, hrequired, hvalue, rfl⟩
        · exact hlater h

/-- The values are those that are given for the fields. -/
theorem value?_given (hnames : (fields.map Field.plain).Nodup)
    (h : given op data fields = .ok values) :
    (∀ field ∈ fields, values.value? field.plain = either data field.wire field.plain) ∧
      (∀ name, name ∉ fields.map Field.plain → values.value? name = none) ∧
      ∀ field ∈ fields, field.required = true → either data field.wire field.plain ≠ none := by
  induction fields generalizing values with
  | nil =>
      cases h
      exact ⟨by simp, fun _ _ => rfl, by simp⟩
  | cons field rest ih =>
      obtain ⟨hnew, hnames⟩ := List.nodup_cons.mp hnames
      rw [given] at h
      split at h
      · rename_i value hvalue
        have hgiven : either data field.wire field.plain = some value := hvalue
        cases hrest : given op data rest with
        | error fault => rw [hrest] at h; cases h
        | ok others =>
            rw [hrest] at h
            cases h
            obtain ⟨hvalues, habsent, hrequired⟩ := ih hnames hrest
            refine ⟨?_, fun name hname => ?_, ?_⟩
            · refine List.forall_mem_cons.mpr ⟨?_, fun other hother => ?_⟩
              · rw [Entries.value?_cons, if_pos (beq_self_eq_true _), hgiven]
              · have hne : field.plain ≠ other.plain := fun heq =>
                  hnew (heq ▸ List.mem_map_of_mem hother)
                rw [Entries.value?_cons, if_neg (by simpa using hne), hvalues other hother]
            · rw [List.map_cons, List.mem_cons, not_or] at hname
              rw [Entries.value?_cons, if_neg (by simpa using Ne.symm hname.1),
                habsent name hname.2]
            · exact List.forall_mem_cons.mpr ⟨fun _ => by rw [hgiven]; simp, hrequired⟩
      · rename_i hvalue
        have hgiven : either data field.wire field.plain = none := hvalue
        split at h
        · cases h
        · rename_i hoptional
          obtain ⟨hvalues, habsent, hrequired⟩ := ih hnames h
          refine ⟨List.forall_mem_cons.mpr ⟨?_, hvalues⟩, fun name hname => ?_, ?_⟩
          · rw [hgiven, habsent field.plain hnew]
          · rw [List.map_cons, List.mem_cons, not_or] at hname
            exact habsent name hname.2
          · exact List.forall_mem_cons.mpr ⟨fun h => absurd h hoptional, hrequired⟩

/-! ## The index, the value and the texts -/

/-- An index is given as an integer, or not at all. -/
inductive IndexOf : Option Datum → Option Int → Prop
  | absent : IndexOf none none
  | null : IndexOf (some .null) none
  | int (n : Int) : IndexOf (some (.number (.int n))) (some n)

/-- The value of an attribute is given as any data, or not at all. -/
inductive ValueOf : Option Datum → Option String → Prop
  | absent : ValueOf none none
  | null : ValueOf (some .null) none
  | bool (b : Bool) : ValueOf (some (.bool b)) (some (if b then "true" else "false"))
  | other {d : Datum} (given : d ≠ .null) (unlike : ∀ b, d ≠ .bool b) :
      ValueOf (some d) (some d.asText)

theorem index?_of {index : Option Int} (h : index? op values = .ok index) :
    IndexOf (values.value? "index") index := by
  unfold index? at h
  split at h
  · rename_i hgiven
    cases h
    rw [hgiven]
    exact .absent
  · rename_i hgiven
    cases h
    rw [hgiven]
    exact .null
  · rename_i n hgiven
    cases h
    rw [hgiven]
    exact .int n
  · cases h

/-- What an index may be. -/
def IsIndex (d : Datum) : Prop := d = .null ∨ ∃ n : Int, d = .number (.int n)

theorem index?_error_iff : index? op values = .error fault ↔
    ∃ d, values.value? "index" = some d ∧ ¬ IsIndex d ∧ fault = .badIndex op d := by
  unfold index?
  split
  · rename_i hgiven
    simp [hgiven]
  · rename_i hgiven
    simp [hgiven, IsIndex]
  · rename_i n hgiven
    simp [hgiven, IsIndex]
  · rename_i d hnull hint hgiven
    have hother : ¬ IsIndex d := fun h => h.elim hnull fun ⟨n, hn⟩ => hint n hn
    simp only [hgiven, Except.error.injEq, Option.some.injEq]
    constructor
    · rintro rfl
      exact ⟨d, rfl, hother, rfl⟩
    · rintro ⟨_, rfl, -, rfl⟩
      rfl

theorem valueText_of {given : Option Datum} {value : Option String}
    (h : valueText given = .ok value) : ValueOf given value := by
  unfold valueText at h
  split at h
  · cases h
    exact .absent
  · cases h
    exact .null
  · cases h
    exact .bool _
  · rename_i d hnull hbool
    split at h
    · cases h
      exact .other hnull hbool
    · cases h

theorem valueText_error_iff {given : Option Datum} : valueText given = .error fault ↔
    ∃ d, given = some d ∧ d.isWritable = false ∧ fault = .unwritable := by
  unfold valueText
  split
  · simp
  · simp [Datum.isWritable]
  · simp [Datum.isWritable]
  · rename_i d _ _
    split
    · rename_i hwritable
      simp [hwritable]
    · rename_i hwritable
      rw [Bool.not_eq_true] at hwritable
      simp only [Except.error.injEq, Option.some.injEq]
      exact ⟨fun h => ⟨d, rfl, hwritable, h.symm⟩, fun ⟨_, _, _, h⟩ => h.symm⟩

/-- Something other than a text is given for a text field. -/
structure Mistyped (data : Fields) (field : Field) (d : Datum) : Prop where
  given : either data field.wire field.plain = some d
  text : (field.plain == "index" || field.plain == "value") = false
  other : ∀ s, d ≠ .text s

/-- The first field that is mistyped decides. -/
def FirstMistyped (data : Fields) (fields : List Field) (field : Field) (d : Datum) : Prop :=
  ∃ front back, fields = front ++ field :: back ∧
    (∀ other ∈ front, ∀ d, ¬ Mistyped data other d) ∧ Mistyped data field d

theorem firstMistyped_cons {first field : Field} {d : Datum}
    (hfirst : ∀ d, ¬ Mistyped data first d) :
    FirstMistyped data (first :: fields) field d ↔ FirstMistyped data fields field d := by
  constructor
  · rintro ⟨front, back, heq, hfront, hbad⟩
    cases front with
    | nil =>
        cases heq
        exact absurd hbad (hfirst d)
    | cons other front =>
        cases heq
        exact ⟨front, back, rfl, (List.forall_mem_cons.mp hfront).2, hbad⟩
  · rintro ⟨front, back, rfl, hfront, hbad⟩
    exact ⟨first :: front, back, rfl, List.forall_mem_cons.mpr ⟨hfirst, hfront⟩, hbad⟩

theorem firstMistyped_of_mistyped {first field : Field} {d d' : Datum}
    (hfirst : Mistyped data first d) :
    FirstMistyped data (first :: fields) field d' ↔ field = first ∧ d' = d := by
  constructor
  · rintro ⟨front, back, heq, hfront, hbad⟩
    cases front with
    | nil =>
        cases heq
        exact ⟨rfl, Option.some.inj (hbad.given.symm.trans hfirst.given)⟩
    | cons other front =>
        cases heq
        exact absurd hfirst ((List.forall_mem_cons.mp hfront).1 d)
  · rintro ⟨rfl, rfl⟩
    exact ⟨[], fields, rfl, by simp, hfirst⟩

theorem texts_error_iff (h : given op data fields = .ok values) :
    texts op values = .error fault ↔
      ∃ field d, FirstMistyped data fields field d ∧ fault = .badField op field.plain d := by
  induction fields generalizing values with
  | nil =>
      cases h
      simp [texts, FirstMistyped]
  | cons first rest ih =>
      rw [given] at h
      split at h
      · rename_i value hvalue
        have hgiven : either data first.wire first.plain = some value := hvalue
        cases hrest : given op data rest with
        | error fault =>
            rw [hrest] at h
            cases h
        | ok others =>
            rw [hrest] at h
            cases h
            unfold texts
            split
            · rename_i hname
              have hfirst : ∀ d, ¬ Mistyped data first d := fun d hbad => by
                rw [hbad.text] at hname
                cases hname
              simp only [firstMistyped_cons hfirst, ih hrest]
            · rename_i hname
              split
              · rename_i s
                have hfirst : ∀ d, ¬ Mistyped data first d := fun d hbad =>
                  hbad.other s (Option.some.inj (hbad.given.symm.trans hgiven))
                simp only [map_error_iff, firstMistyped_cons hfirst, ih hrest]
              · rename_i hother
                have hfirst : Mistyped data first value :=
                  ⟨hgiven, by simpa using hname, hother⟩
                simp only [firstMistyped_of_mistyped hfirst]
                exact ⟨fun h => by cases h; exact ⟨first, value, ⟨rfl, rfl⟩, rfl⟩,
                  fun ⟨_, _, ⟨rfl, rfl⟩, hfault⟩ => by rw [hfault]⟩
      · rename_i hvalue
        have hfirst : ∀ d, ¬ Mistyped data first d := fun d hbad => by
          have hnone : either data first.wire first.plain = none := hvalue
          rw [hbad.given] at hnone
          cases hnone
        split at h
        · cases h
        · simp only [firstMistyped_cons hfirst, ih h]

/-- Every text field has the text that is given. -/
theorem value?_of_texts {found : Entries String String} (h : texts op values = .ok found)
    {name : String} (hname : (name == "index" || name == "value") = false) :
    values.value? name = (found.value? name).map .text := by
  induction values generalizing found with
  | nil =>
      cases h
      rfl
  | cons entry rest ih =>
      obtain ⟨other, d⟩ := entry
      unfold texts at h
      split at h
      · rename_i hother
        have hne : ¬ (other == name) = true := by
          rintro heq
          rw [← eq_of_beq heq, hother] at hname
          cases hname
        rw [Entries.value?_cons, if_neg hne, ih h]
      · split at h
        · rename_i s
          cases hrest : texts op rest with
          | error fault => rw [hrest] at h; cases h
          | ok others =>
              rw [hrest] at h
              cases h
              rw [Entries.value?_cons, Entries.value?_cons, ih hrest]
              split <;> rfl
        · cases h

/-! ## Maps that are laid out as a patch -/

/-- A map names an operation with these fields, and gives those that the operation requires. -/
structure Names (data : Fields) (op : String) (fields : List Field) : Prop where
  named : opOf data = .text op
  known : fields? op = some fields
  full : ∀ field ∈ fields, field.required = true → either data field.wire field.plain ≠ none

/-- One of the fields has this name, and this is given for it. -/
def Given (data : Fields) (fields : List Field) (name : String) (d : Datum) : Prop :=
  ∃ field ∈ fields, field.plain = name ∧ either data field.wire field.plain = some d

/-- No two fields of an operation have the same name. -/
theorem nodup_plain (h : fields? op = some fields) : (fields.map Field.plain).Nodup := by
  unfold fields? at h
  split at h <;> cases h <;> decide

theorem named_of_opOf (h : opOf data = .text op) : data.value? "op" = some (.text op) := by
  unfold opOf at h
  cases hvalue : data.value? "op" with
  | none =>
      rw [hvalue] at h
      cases h
  | some d =>
      rw [hvalue] at h
      exact congrArg some h

/-- The values of a map that names an operation. -/
structure Laid (data : Fields) (op : String) (fields : List Field) (values : Fields) : Prop
    extends Names data op fields where
  values : given op data fields = .ok values

theorem Names.laid (h : Names data op fields) : ∃ values, Laid data op fields values := by
  cases hgiven : given op data fields with
  | ok values => exact ⟨values, h, hgiven⟩
  | error fault =>
      obtain ⟨field, hfield, hrequired, hnone, -⟩ := given_error hgiven
      exact absurd hnone (h.full field hfield hrequired)

namespace Laid

variable {name : String} {d : Datum}

theorem value?_eq (h : Laid data op fields values) :
    ∀ field ∈ fields, values.value? field.plain = either data field.wire field.plain :=
  (value?_given (nodup_plain h.known) h.values).1

theorem value?_eq_some_iff (h : Laid data op fields values) :
    values.value? name = some d ↔ Given data fields name d := by
  obtain ⟨hvalues, habsent, -⟩ := value?_given (nodup_plain h.known) h.values
  constructor
  · intro hvalue
    by_cases hname : name ∈ fields.map Field.plain
    · obtain ⟨field, hfield, rfl⟩ := List.mem_map.mp hname
      exact ⟨field, hfield, rfl, (hvalues field hfield).symm.trans hvalue⟩
    · rw [habsent name hname] at hvalue
      cases hvalue
  · rintro ⟨field, hfield, rfl, hgiven⟩
    rw [hvalues field hfield, hgiven]

theorem index_error_iff (h : Laid data op fields values) : index? op values = .error fault ↔
    ∃ d, Given data fields "index" d ∧ ¬ IsIndex d ∧ fault = .badIndex op d := by
  simp only [index?_error_iff, h.value?_eq_some_iff]

theorem value_error_iff (h : Laid data op fields values) :
    valueText (values.value? "value") = .error fault ↔
      ∃ d, Given data fields "value" d ∧ d.isWritable = false ∧ fault = .unwritable := by
  simp only [valueText_error_iff, h.value?_eq_some_iff]

theorem index_ok_iff (h : Laid data op fields values) :
    (∃ index, index? op values = .ok index) ↔ ∀ d, Given data fields "index" d → IsIndex d := by
  rw [exists_ok_iff]
  constructor
  · intro hok d hgiven
    by_contra hother
    exact hok _ (h.index_error_iff.mpr ⟨d, hgiven, hother, rfl⟩)
  · intro hall fault herror
    obtain ⟨d, hgiven, hother, -⟩ := h.index_error_iff.mp herror
    exact hother (hall d hgiven)

theorem value_ok_iff (h : Laid data op fields values) :
    (∃ value, valueText (values.value? "value") = .ok value) ↔
      ∀ d, Given data fields "value" d → d.isWritable = true := by
  rw [exists_ok_iff]
  constructor
  · intro hok d hgiven
    by_contra hlong
    exact hok _ (h.value_error_iff.mpr ⟨d, hgiven, Bool.not_eq_true _ ▸ hlong, rfl⟩)
  · intro hall fault herror
    obtain ⟨d, hgiven, hlong, -⟩ := h.value_error_iff.mp herror
    rw [hall d hgiven] at hlong
    cases hlong

theorem ofFields_eq (h : Laid data op fields values) : ofFields data = (do
    let index ← index? op values
    let value ← valueText (values.value? "value")
    let texts ← texts op values
    return build op index value texts) := by
  unfold ofFields
  simp only [named_of_opOf h.named, Option.getD_some, h.known, h.values]
  cases index? op values with
  | error fault => rfl
  | ok index =>
      cases valueText (values.value? "value") with
      | error fault => rfl
      | ok value => cases texts op values <;> rfl

end Laid

/-- A map that names an operation is laid out as a patch, or refused at once. -/
theorem laid_or_refused (h : opOf data = .text op) :
    (∃ fields values, Laid data op fields values) ∨
      ∃ fault, ofFields data = .error fault ∧ fault.isRefusal = true := by
  have hnamed := named_of_opOf h
  cases hfields : fields? op with
  | none =>
      refine .inr ⟨.unknownOp (.text op), ?_, rfl⟩
      unfold ofFields
      simp only [hnamed, Option.getD_some, hfields]
  | some fields =>
      cases hgiven : given op data fields with
      | ok values =>
          have hfull := (value?_given (nodup_plain hfields) hgiven).2.2
          exact .inl ⟨fields, values, ⟨h, hfields, hfull⟩, hgiven⟩
      | error fault =>
          obtain ⟨field, -, -, -, rfl⟩ := given_error hgiven
          refine .inr ⟨.missingField op field.wire, ?_, rfl⟩
          unfold ofFields
          simp only [hnamed, Option.getD_some, hfields, hgiven]

/-- What becomes of a map whose operation is no name. -/
theorem ofFields_unnamed (h : ∀ op, opOf data ≠ .text op) :
    ofFields data = .error .unusableOp ∧
        ((∃ ds, opOf data = .list ds) ∨ ∃ fields, opOf data = .map fields) ∨
      ofFields data = .error (.unknownOp (opOf data)) := by
  unfold ofFields opOf at *
  split
  · rename_i ds hop
    exact .inl ⟨rfl, .inl ⟨ds, hop⟩⟩
  · rename_i fields hop
    exact .inl ⟨rfl, .inr ⟨fields, hop⟩⟩
  · rename_i op hop
    exact absurd hop (h op)
  · exact .inr rfl

/-! ## Reads that break off -/

/-- The places where something is done with the data that they do not allow, in the order in which
a read comes to them. -/
inductive Breaks (data : Fields) : Prop
  | list {ds : List Datum} (named : opOf data = .list ds)
  | map {fields : Fields} (named : opOf data = .map fields)
  | unknown (long : (opOf data).isWritable = false)
  | index {op : String} {fields : List Field} {d : Datum} (names : Names data op fields)
      (given : Given data fields "index" d) (other : ¬ IsIndex d) (long : d.isWritable = false)
  | value {op : String} {fields : List Field} {d : Datum} (names : Names data op fields)
      (position : ∀ d, Given data fields "index" d → IsIndex d)
      (given : Given data fields "value" d) (long : d.isWritable = false)
  | field {op : String} {fields : List Field} {field : Field} {d : Datum}
      (names : Names data op fields) (position : ∀ d, Given data fields "index" d → IsIndex d)
      (text : ∀ d, Given data fields "value" d → d.isWritable = true)
      (first : FirstMistyped data fields field d) (long : d.isWritable = false)

/-- Where a read breaks off, nothing is refused. -/
theorem Breaks.unrefused (h : Breaks data) :
    ∃ fault, ofFields data = .error fault ∧ fault.isRefusal = false := by
  cases h with
  | list named =>
      refine ⟨.unusableOp, ?_, rfl⟩
      unfold ofFields
      rw [show (data.value? "op").getD .null = _ from named]
  | map named =>
      refine ⟨.unusableOp, ?_, rfl⟩
      unfold ofFields
      rw [show (data.value? "op").getD .null = _ from named]
  | unknown long =>
      have hunnamed : ∀ op, opOf data ≠ .text op := fun op hop => by
        rw [hop] at long
        cases long
      rcases ofFields_unnamed hunnamed with ⟨hread, -⟩ | hread
      · exact ⟨_, hread, rfl⟩
      · exact ⟨_, hread, long⟩
  | index names given other long =>
      obtain ⟨values, hlaid⟩ := names.laid
      rw [hlaid.ofFields_eq, hlaid.index_error_iff.mpr ⟨_, given, other, rfl⟩]
      exact ⟨_, rfl, long⟩
  | value names position given long =>
      obtain ⟨values, hlaid⟩ := names.laid
      obtain ⟨index, hindex⟩ := hlaid.index_ok_iff.mpr position
      rw [hlaid.ofFields_eq, hindex, hlaid.value_error_iff.mpr ⟨_, given, long, rfl⟩]
      exact ⟨_, rfl, rfl⟩
  | field names position text first long =>
      obtain ⟨values, hlaid⟩ := names.laid
      obtain ⟨index, hindex⟩ := hlaid.index_ok_iff.mpr position
      obtain ⟨value, hvalue⟩ := hlaid.value_ok_iff.mpr text
      rw [hlaid.ofFields_eq, hindex, hvalue,
        (texts_error_iff hlaid.values).mpr ⟨_, _, first, rfl⟩]
      exact ⟨_, rfl, long⟩

theorem breaks_of_unrefused {fault : PatchFault} (h : ofFields data = .error fault)
    (hfault : fault.isRefusal = false) : Breaks data := by
  by_cases htext : ∀ op, opOf data ≠ .text op
  · rcases ofFields_unnamed htext with ⟨-, ⟨ds, hop⟩ | ⟨fields, hop⟩⟩ | hread
    · exact .list hop
    · exact .map hop
    · rw [hread] at h
      cases h
      exact .unknown hfault
  · obtain ⟨op, hop⟩ := Classical.not_forall.mp htext
    rw [Classical.not_not] at hop
    rcases laid_or_refused hop with ⟨fields, values, hlaid⟩ | ⟨other, hread, hrefusal⟩
    · have hnames := hlaid.toNames
      rw [hlaid.ofFields_eq] at h
      cases hindex : index? op values with
      | error fault =>
          obtain ⟨d, hgiven, hother, rfl⟩ := hlaid.index_error_iff.mp hindex
          rw [hindex] at h
          cases h
          exact .index hnames hgiven hother hfault
      | ok index =>
          have hposition := hlaid.index_ok_iff.mp ⟨index, hindex⟩
          cases hvalue : valueText (values.value? "value") with
          | error fault =>
              obtain ⟨d, hgiven, hlong, -⟩ := hlaid.value_error_iff.mp hvalue
              exact .value hnames hposition hgiven hlong
          | ok value =>
              have htext := hlaid.value_ok_iff.mp ⟨value, hvalue⟩
              cases htexts : texts op values with
              | error fault =>
                  obtain ⟨field, d, hfirst, rfl⟩ := (texts_error_iff hlaid.values).mp htexts
                  rw [hindex, hvalue, htexts] at h
                  cases h
                  exact .field hnames hposition htext hfirst hfault
              | ok texts =>
                  rw [hindex, hvalue, htexts] at h
                  cases h
    · rw [hread] at h
      cases h
      rw [hrefusal] at hfault
      cases hfault

/-! ## The patch that is read -/

/-- The patch of the operation that a map names, with what is given for its fields. -/
inductive PatchOf (data : Fields) : Patch → Prop
  | appendNode {parentId nodeXml : String} {index : Option Int}
      (named : opOf data = .text "appendNode")
      (parent : either data "parentId" "parent_id" = some (.text parentId))
      (markup : either data "nodeXml" "node_xml" = some (.text nodeXml))
      (position : IndexOf (either data "index" "index") index) :
      PatchOf data (.appendNode parentId nodeXml index)
  | removeNode {nodeId : String} (named : opOf data = .text "removeNode")
      (node : either data "nodeId" "node_id" = some (.text nodeId)) :
      PatchOf data (.removeNode nodeId)
  | setAttr {nodeId name : String} {value : Option String} (named : opOf data = .text "setAttr")
      (node : either data "nodeId" "node_id" = some (.text nodeId))
      (called : either data "name" "name" = some (.text name))
      (text : ValueOf (either data "value" "value") value) :
      PatchOf data (.setAttr nodeId name value)
  | setText {nodeId textContent : String} (named : opOf data = .text "setText")
      (node : either data "nodeId" "node_id" = some (.text nodeId))
      (text : either data "textContent" "text_content" = some (.text textContent)) :
      PatchOf data (.setText nodeId textContent)
  | replaceSubtree {nodeId nodeXml : String} (named : opOf data = .text "replaceSubtree")
      (node : either data "nodeId" "node_id" = some (.text nodeId))
      (markup : either data "nodeXml" "node_xml" = some (.text nodeXml)) :
      PatchOf data (.replaceSubtree nodeId nodeXml)
  | sealScene {sceneId : String} (named : opOf data = .text "sealScene")
      (scene : either data "sceneId" "scene_id" = some (.text sceneId)) :
      PatchOf data (.sealScene sceneId)

/-- A map that is read is laid out as a patch, and its index, value and texts are in order. -/
theorem laid_of_ok {patch : Patch} (h : ofFields data = .ok patch) :
    ∃ op fields values index value found, Laid data op fields values ∧
      index? op values = .ok index ∧ valueText (values.value? "value") = .ok value ∧
        texts op values = .ok found ∧ patch = build op index value found := by
  by_cases htext : ∀ op, opOf data ≠ .text op
  · rcases ofFields_unnamed htext with ⟨hread, -⟩ | hread <;> (rw [hread] at h; cases h)
  · obtain ⟨op, hop⟩ := Classical.not_forall.mp htext
    rcases laid_or_refused (Classical.not_not.mp hop) with ⟨fields, values, hlaid⟩ |
      ⟨fault, hread, -⟩
    · rw [hlaid.ofFields_eq] at h
      obtain ⟨index, hindex, h⟩ := ok_of_bind h
      obtain ⟨value, hvalue, h⟩ := ok_of_bind h
      obtain ⟨found, htexts, h⟩ := ok_of_bind h
      cases h
      exact ⟨op, fields, values, index, value, found, hlaid, hindex, hvalue, htexts, rfl⟩
    · rw [hread] at h
      cases h

/-- The text of a required field is the one that is given. -/
theorem Laid.text (h : Laid data op fields values) {found : Entries String String}
    (htexts : texts op values = .ok found) (field : Field) (hfield : field ∈ fields)
    (hrequired : field.required = true)
    (htext : (field.plain == "index" || field.plain == "value") = false) :
    either data field.wire field.plain = some (.text ((found.value? field.plain).getD "")) := by
  have hsome := h.full field hfield hrequired
  rw [← h.value?_eq field hfield, value?_of_texts htexts htext] at hsome ⊢
  cases hvalue : found.value? field.plain with
  | none => exact absurd (by rw [hvalue]; rfl) hsome
  | some s => rfl

/-- What is read is the patch that a map names. -/
theorem patchOf_of_ok {patch : Patch} (h : ofFields data = .ok patch) : PatchOf data patch := by
  obtain ⟨op, fields, values, index, value, found, hlaid, hindex, hvalue, htexts, rfl⟩ :=
    laid_of_ok h
  have hop := hlaid.named
  have hvalues := hlaid.value?_eq
  have htext := hlaid.text htexts
  have hposition := index?_of hindex
  have hset := valueText_of hvalue
  have hfields := hlaid.known
  unfold fields? at hfields
  split at hfields <;> cases hfields
  · rw [hvalues ⟨"index", "index", false⟩ (by simp)] at hposition
    exact .appendNode hop (htext ⟨"parentId", "parent_id", true⟩ (by simp) rfl (by decide))
      (htext ⟨"nodeXml", "node_xml", true⟩ (by simp) rfl (by decide)) hposition
  · exact .removeNode hop (htext ⟨"nodeId", "node_id", true⟩ (by simp) rfl (by decide))
  · rw [hvalues ⟨"value", "value", false⟩ (by simp)] at hset
    exact .setAttr hop (htext ⟨"nodeId", "node_id", true⟩ (by simp) rfl (by decide))
      (htext ⟨"name", "name", true⟩ (by simp) rfl (by decide)) hset
  · exact .setText hop (htext ⟨"nodeId", "node_id", true⟩ (by simp) rfl (by decide))
      (htext ⟨"textContent", "text_content", true⟩ (by simp) rfl (by decide))
  · exact .replaceSubtree hop (htext ⟨"nodeId", "node_id", true⟩ (by simp) rfl (by decide))
      (htext ⟨"nodeXml", "node_xml", true⟩ (by simp) rfl (by decide))
  · exact .sealScene hop (htext ⟨"sceneId", "scene_id", true⟩ (by simp) rfl (by decide))

/-! ## Reading a patch -/

/-- A map is refused, or read as the patch that it names. -/
def Settles (data : Fields) : Prop :=
  (∃ fault, ofFields data = .error fault ∧ fault.isRefusal = true) ∨
    ∃ patch, ofFields data = .ok patch ∧ PatchOf data patch

theorem breaks_iff :
    Breaks data ↔ ∃ fault, ofFields data = .error fault ∧ fault.isRefusal = false :=
  ⟨Breaks.unrefused, fun ⟨_, hread, hfault⟩ => breaks_of_unrefused hread hfault⟩

theorem settles_iff_not_breaks : Settles data ↔ ¬ Breaks data := by
  have hread : (∃ patch, ofFields data = .ok patch ∧ PatchOf data patch) ↔
      ∃ patch, ofFields data = .ok patch :=
    ⟨fun ⟨patch, h, _⟩ => ⟨patch, h⟩, fun ⟨patch, h⟩ => ⟨patch, h, patchOf_of_ok h⟩⟩
  rw [Settles, hread, breaks_iff, passed_or_ok_iff]

end Patch

namespace PatchManifest

variable {entry : Datum} {front back ds : List Datum} {index : Nat} {patch : Patch}
  {patches : List Patch} {fault : PatchManifestFault}

/-! ## Entries -/

/-- An entry is a map that is read as a patch. -/
def Reads (entry : Datum) (patch : Patch) : Prop :=
  ∃ data, entry = .map data ∧ Patch.ofFields data = .ok patch

/-- What is wrong with an entry. -/
inductive Fails (index : Nat) : Datum → PatchManifestFault → Prop
  | kind {entry : Datum} (other : ∀ data, entry ≠ .map data) :
      Fails index entry (.entryNotAMap index entry)
  | operation {data : Fields} (absent : Entries.hasKey data "op" = false) :
      Fails index (.map data) (.entryWithoutOp index)
  | patch {data : Fields} {fault : PatchFault} (there : Entries.hasKey data "op" = true)
      (read : Patch.ofFields data = .error fault) :
      Fails index (.map data) (.badEntry index fault)

theorem hasKey_eq_isSome (data : Fields) (name : String) :
    Entries.hasKey data name = (data.value? name).isSome := by
  rw [Entries.hasKey, Entries.value?, Option.isSome_map, Bool.eq_iff_iff, List.any_eq_true,
    List.find?_isSome]

/-- A map without an operation is refused as a patch. -/
theorem ofFields_of_absent {data : Fields} (h : Entries.hasKey data "op" = false) :
    Patch.ofFields data = .error (.unknownOp .null) := by
  rw [hasKey_eq_isSome, Option.isSome_eq_false_iff, Option.isNone_iff_eq_none] at h
  unfold Patch.ofFields
  rw [h]
  rfl

theorem reads_or_fails (index : Nat) (entry : Datum) :
    (∃ patch, Reads entry patch) ∨ ∃ fault, Fails index entry fault := by
  by_cases hmap : ∃ data, entry = .map data
  · obtain ⟨data, rfl⟩ := hmap
    cases hkey : Entries.hasKey data "op" with
    | false => exact .inr ⟨_, .operation hkey⟩
    | true =>
        cases hread : Patch.ofFields data with
        | ok patch => exact .inl ⟨patch, data, rfl, hread⟩
        | error fault => exact .inr ⟨_, .patch hkey hread⟩
  · exact .inr ⟨_, .kind (not_exists.mp hmap)⟩

theorem Fails.not_reads (h : Fails index entry fault) : ¬ ∃ patch, Reads entry patch := by
  rintro ⟨patch, data, rfl, hread⟩
  cases h with
  | kind other => exact other data rfl
  | operation absent =>
      rw [ofFields_of_absent absent] at hread
      cases hread
  | patch _ read =>
      rw [read] at hread
      cases hread

theorem entries_cons_of_reads (h : Reads entry patch) (index : Nat) (rest : List Datum) :
    entries index (entry :: rest) = (entries (index + 1) rest).map (patch :: ·) := by
  obtain ⟨data, rfl, hread⟩ := h
  cases hkey : Entries.hasKey data "op" with
  | false =>
      rw [ofFields_of_absent hkey] at hread
      cases hread
  | true => simp only [entries, hkey, hread, Bool.not_true, Bool.false_eq_true, if_false]

theorem entries_cons_of_fails (h : Fails index entry fault) (rest : List Datum) :
    entries index (entry :: rest) = .error fault := by
  cases h with
  | kind other =>
      cases entry with
      | map data => exact absurd rfl (other data)
      | _ => rfl
  | operation absent => simp only [entries, absent, Bool.not_false, if_true]
  | patch there read =>
      simp only [entries, there, read, Bool.not_true, Bool.false_eq_true, if_false]

/-- As many patches are read as there are entries, each from its own. -/
theorem reads_of_entries (h : entries index ds = .ok patches) : List.Forall₂ Reads ds patches := by
  induction ds generalizing index patches with
  | nil =>
      cases h
      exact .nil
  | cons entry rest ih =>
      rcases reads_or_fails index entry with ⟨patch, hread⟩ | ⟨fault, hfail⟩
      · rw [entries_cons_of_reads hread] at h
        cases hrest : entries (index + 1) rest with
        | error fault =>
            rw [hrest] at h
            cases h
        | ok others =>
            rw [hrest] at h
            cases h
            exact .cons hread (ih hrest)
      · rw [entries_cons_of_fails hfail] at h
        cases h

/-- The first entry that is not read decides what is wrong. -/
theorem entries_append_of_fails (hfront : ∀ entry ∈ front, ∃ patch, Reads entry patch)
    (hfail : Fails (index + front.length) entry fault) :
    entries index (front ++ entry :: back) = .error fault := by
  induction front generalizing index with
  | nil => exact entries_cons_of_fails hfail back
  | cons first rest ih =>
      obtain ⟨⟨patch, hread⟩, hrest⟩ := List.forall_mem_cons.mp hfront
      rw [List.length_cons, Nat.add_comm rest.length, ← Nat.add_assoc] at hfail
      rw [List.cons_append, entries_cons_of_reads hread, ih hrest hfail]
      rfl

theorem fails_of_entries (h : entries index ds = .error fault) :
    ∃ front entry back, ds = front ++ entry :: back ∧
      (∀ entry ∈ front, ∃ patch, Reads entry patch) ∧ Fails (index + front.length) entry fault := by
  induction ds generalizing index with
  | nil => cases h
  | cons entry rest ih =>
      rcases reads_or_fails index entry with ⟨patch, hread⟩ | ⟨other, hfail⟩
      · rw [entries_cons_of_reads hread, map_error_iff] at h
        obtain ⟨front, bad, back, rfl, hfront, hfail⟩ := ih h
        refine ⟨entry :: front, bad, back, rfl,
          List.forall_mem_cons.mpr ⟨⟨patch, hread⟩, hfront⟩, ?_⟩
        rw [List.length_cons, Nat.add_comm front.length, ← Nat.add_assoc]
        exact hfail
      · rw [entries_cons_of_fails hfail] at h
        cases h
        exact ⟨[], entry, rest, rfl, by simp, hfail⟩

/-! ## The frame of a manifest -/

/-- What stands around the entries: a map with a list that holds them, and with flags that are
booleans. -/
inductive Frame : Datum → List Datum → Bool → Bool → Prop
  | map {fields : Fields} {ds : List Datum} {enforceSealed atomic : Bool}
      (patches : fields.value? "patches" = some (.list ds))
      (sealing : (fields.value? "enforce_sealed").getD (.bool false) = .bool enforceSealed)
      (whole : (fields.value? "atomic").getD (.bool true) = .bool atomic) :
      Frame (.map fields) ds enforceSealed atomic

variable {d : Datum} {enforceSealed atomic : Bool}

theorem flag_of_getD {fields : Fields} {name : String} {default b : Bool}
    (h : (fields.value? name).getD (.bool default) = .bool b) :
    flag fields name default = .ok b := by
  unfold flag
  cases hvalue : fields.value? name <;> rw [hvalue] at h <;> cases h <;> rfl

theorem flag_cases (fields : Fields) (name : String) (default : Bool) :
    (∃ b, (fields.value? name).getD (.bool default) = .bool b) ∨
      ∃ d, flag fields name default = .error (.badFlag name d) := by
  unfold flag
  split
  · rename_i hvalue
    exact .inl ⟨default, by rw [hvalue]; rfl⟩
  · rename_i b hvalue
    exact .inl ⟨b, by rw [hvalue]; rfl⟩
  · rename_i d _ _
    exact .inr ⟨d, rfl⟩

theorem Frame.ofDatum_eq (h : Frame d ds enforceSealed atomic) :
    ofDatum d = (entries 0 ds).map ({ enforceSealed, atomic, patches := · }) := by
  cases h with
  | map patches sealing whole =>
      simp only [ofDatum, patches, flag_of_getD sealing, flag_of_getD whole]
      cases entries 0 ds <;> rfl

theorem framed_or_unframed (d : Datum) :
    (∃ ds enforceSealed atomic, Frame d ds enforceSealed atomic) ∨
      ∀ ds enforceSealed atomic, ¬ Frame d ds enforceSealed atomic := by
  simpa only [not_exists] using
    Classical.em (∃ ds enforceSealed atomic, Frame d ds enforceSealed atomic)

/-- Data that is no frame of entries is refused. -/
theorem refused_of_unframed (h : ∀ ds enforceSealed atomic, ¬ Frame d ds enforceSealed atomic) :
    ∃ fault, ofDatum d = .error fault ∧ fault.isRefusal = true := by
  unfold ofDatum
  split
  · rename_i fields
    split
    · exact ⟨.noPatches, rfl, rfl⟩
    · rename_i ds hpatches
      rcases flag_cases fields "enforce_sealed" false with ⟨enforceSealed, hsealing⟩ | ⟨d, hflag⟩
      · rcases flag_cases fields "atomic" true with ⟨atomic, hwhole⟩ | ⟨d, hflag⟩
        · exact absurd (.map hpatches hsealing hwhole) (h ds enforceSealed atomic)
        · rw [flag_of_getD hsealing, hflag]
          exact ⟨_, rfl, rfl⟩
      · rw [hflag]
        exact ⟨_, rfl, rfl⟩
    · exact ⟨.patchesNotAList, rfl, rfl⟩
  · exact ⟨.notAMap, rfl, rfl⟩

/-! ## Reading a manifest -/

/-- A refusal says what is wrong around the entries, or begins with the place of the first entry
that is not read. -/
inductive Refused (d : Datum) : PatchManifestFault → Prop
  | frame {fault : PatchManifestFault}
      (unframed : ∀ ds enforceSealed atomic, ¬ Frame d ds enforceSealed atomic) : Refused d fault
  | entry {front back : List Datum} {entry : Datum} {enforceSealed atomic : Bool}
      {fault : PatchManifestFault} {reason : String}
      (framed : Frame d (front ++ entry :: back) enforceSealed atomic)
      (before : ∀ entry ∈ front, ∃ patch, Reads entry patch)
      (bad : ¬ ∃ patch, Reads entry patch)
      (place : fault.message = PatchManifestFault.place front.length ++ reason) : Refused d fault

/-- The flags are those that are given, and every entry comes to the patch that it names. -/
def Valid (d : Datum) (m : PatchManifest) : Prop :=
  ∃ ds, Frame d ds m.enforceSealed m.atomic ∧
    List.Forall₂ (fun entry patch => ∃ data, entry = .map data ∧ Patch.PatchOf data patch)
      ds m.patches

/-- A manifest is refused with the place of what is wrong, or read with all its patches. -/
def Settles (d : Datum) : Prop :=
  (∃ fault, ofDatum d = .error fault ∧ fault.isRefusal = true ∧ Refused d fault) ∨
    ∃ m, ofDatum d = .ok m ∧ Valid d m

/-- The entries are read up to one where something is done with the data that they do not allow. -/
inductive Breaks (d : Datum) : Prop
  | kind {front back : List Datum} {entry : Datum} {enforceSealed atomic : Bool}
      (framed : Frame d (front ++ entry :: back) enforceSealed atomic)
      (before : ∀ entry ∈ front, ∃ patch, Reads entry patch)
      (other : ∀ data, entry ≠ .map data) (long : entry.isWritable = false)
  | patch {front back : List Datum} {data : Fields} {enforceSealed atomic : Bool}
      (framed : Frame d (front ++ .map data :: back) enforceSealed atomic)
      (before : ∀ entry ∈ front, ∃ patch, Reads entry patch)
      (breaks : Patch.Breaks data)

theorem Frame.ofDatum_error (h : Frame d (front ++ entry :: back) enforceSealed atomic)
    (hfront : ∀ entry ∈ front, ∃ patch, Reads entry patch)
    (hfail : Fails front.length entry fault) :
    ofDatum d = .error fault := by
  rw [h.ofDatum_eq, entries_append_of_fails hfront (by rwa [Nat.zero_add])]
  rfl

theorem Breaks.unrefused (h : Breaks d) :
    ∃ fault, ofDatum d = .error fault ∧ fault.isRefusal = false := by
  cases h with
  | kind framed before other long => exact ⟨_, framed.ofDatum_error before (.kind other), long⟩
  | @patch front back data enforceSealed atomic framed before breaks =>
      obtain ⟨fault, hread, hfault⟩ := breaks.unrefused
      have hkey : Entries.hasKey data "op" = true := by
        by_contra hkey
        rw [ofFields_of_absent (Bool.not_eq_true _ ▸ hkey)] at hread
        cases hread
        cases hfault
      exact ⟨_, framed.ofDatum_error before (.patch hkey hread), hfault⟩

/-- A fault is about the frame, or about the first entry that is not read. -/
theorem fails_of_error (h : ofDatum d = .error fault) :
    ((∀ ds enforceSealed atomic, ¬ Frame d ds enforceSealed atomic) ∧ fault.isRefusal = true) ∨
      ∃ front entry back enforceSealed atomic,
        Frame d (front ++ entry :: back) enforceSealed atomic ∧
          (∀ entry ∈ front, ∃ patch, Reads entry patch) ∧ Fails front.length entry fault := by
  rcases framed_or_unframed d with ⟨ds, enforceSealed, atomic, hframe⟩ | hframe
  · rw [hframe.ofDatum_eq, map_error_iff] at h
    obtain ⟨front, entry, back, rfl, hfront, hfail⟩ := fails_of_entries h
    rw [Nat.zero_add] at hfail
    exact .inr ⟨front, entry, back, enforceSealed, atomic, hframe, hfront, hfail⟩
  · obtain ⟨other, hother, hrefusal⟩ := refused_of_unframed hframe
    rw [h] at hother
    cases hother
    exact .inl ⟨hframe, hrefusal⟩

theorem breaks_of_unrefused (h : ofDatum d = .error fault) (hfault : fault.isRefusal = false) :
    Breaks d := by
  rcases fails_of_error h with ⟨-, hrefusal⟩ | ⟨front, entry, back, _, _, hframe, hfront, hfail⟩
  · rw [hrefusal] at hfault
    cases hfault
  · cases hfail with
    | kind other => exact .kind hframe hfront other hfault
    | operation => cases hfault
    | patch _ read => exact .patch hframe hfront (Patch.breaks_of_unrefused read hfault)

theorem breaks_iff : Breaks d ↔ ∃ fault, ofDatum d = .error fault ∧ fault.isRefusal = false :=
  ⟨Breaks.unrefused, fun ⟨_, hread, hfault⟩ => breaks_of_unrefused hread hfault⟩

/-- The refusal of an entry begins with its place. -/
theorem Fails.message (h : Fails index entry fault) (hfault : fault.isRefusal = true) :
    ∃ reason, fault.message = PatchManifestFault.place index ++ reason := by
  cases h with
  | kind =>
      have hwritable : entry.isWritable = true := hfault
      refine ⟨"expected a mapping, got " ++ entry.shown, ?_⟩
      rw [PatchManifestFault.message, Datum.telling, if_pos hwritable, String.append_assoc]
  | operation => exact ⟨_, rfl⟩
  | @patch _ reason =>
      have hrefusal : reason.isRefusal = true := hfault
      exact ⟨reason.message, by rw [PatchManifestFault.message, if_pos hrefusal]⟩

theorem refused_of_error (h : ofDatum d = .error fault) (hfault : fault.isRefusal = true) :
    Refused d fault := by
  rcases fails_of_error h with ⟨hframe, -⟩ | ⟨front, entry, back, _, _, hframe, hfront, hfail⟩
  · exact .frame hframe
  · obtain ⟨reason, hmessage⟩ := hfail.message hfault
    exact .entry hframe hfront hfail.not_reads hmessage

theorem valid_of_ok {m : PatchManifest} (h : ofDatum d = .ok m) : Valid d m := by
  rcases framed_or_unframed d with ⟨ds, enforceSealed, atomic, hframe⟩ | hframe
  · rw [hframe.ofDatum_eq] at h
    cases hentries : entries 0 ds with
    | error fault =>
        rw [hentries] at h
        cases h
    | ok patches =>
        rw [hentries] at h
        cases h
        refine ⟨ds, hframe, (reads_of_entries hentries).imp ?_⟩
        rintro entry patch ⟨data, rfl, hread⟩
        exact ⟨data, rfl, Patch.patchOf_of_ok hread⟩
  · obtain ⟨fault, hother, -⟩ := refused_of_unframed hframe
    rw [h] at hother
    cases hother

theorem settles_iff_not_breaks : Settles d ↔ ¬ Breaks d := by
  have hrefused : (∃ fault, ofDatum d = .error fault ∧ fault.isRefusal = true ∧ Refused d fault) ↔
      ∃ fault, ofDatum d = .error fault ∧ fault.isRefusal = true :=
    ⟨fun ⟨fault, h, hfault, _⟩ => ⟨fault, h, hfault⟩,
      fun ⟨fault, h, hfault⟩ => ⟨fault, h, hfault, refused_of_error h hfault⟩⟩
  have hread : (∃ m, ofDatum d = .ok m ∧ Valid d m) ↔ ∃ m, ofDatum d = .ok m :=
    ⟨fun ⟨m, h, _⟩ => ⟨m, h⟩, fun ⟨m, h⟩ => ⟨m, h, valid_of_ok h⟩⟩
  rw [Settles, hrefused, hread, breaks_iff, passed_or_ok_iff]

end PatchManifest

/-- A map is refused as a patch or read as the patch that it names, and a manifest is refused with
the place of what is wrong or read with all its patches, exactly if the read does not come to an
operation that is a list or a map or to an integer that is too long to be written. -/
theorem patches_settle_iff (data : Fields) (d : Datum) :
    (Patch.Settles data ↔ ¬ Patch.Breaks data) ∧
      (PatchManifest.Settles d ↔ ¬ PatchManifest.Breaks d) :=
  ⟨Patch.settles_iff_not_breaks, PatchManifest.settles_iff_not_breaks⟩

/-- An operation in a list is not refused, neither in a patch nor in the entry of a manifest. -/
theorem listed_op_unsettled :
    let data : Fields := [("op", .list [.text "removeNode"]), ("nodeId", .text "x")]
    ¬ Patch.Settles data ∧ ¬ PatchManifest.Settles (.map [("patches", .list [.map data])]) := by
  intro data
  have hbreaks : Patch.Breaks data := .list rfl
  have hframe : PatchManifest.Frame (.map [("patches", .list [.map data])])
      ([] ++ .map data :: []) false true := .map rfl rfl rfl
  exact ⟨fun h => Patch.settles_iff_not_breaks.mp h hbreaks,
    fun h => PatchManifest.settles_iff_not_breaks.mp h (.patch hframe (by simp) hbreaks)⟩

end Cuesheet
