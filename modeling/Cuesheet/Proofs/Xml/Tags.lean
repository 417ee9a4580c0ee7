import Cuesheet.Proofs.Data.Entries
import Cuesheet.Proofs.Xml.Escaping
import Cuesheet.Xml.Namespace
import Cuesheet.Xml.Writer

/-!
# Tags, written and read

The attributes of a tag are read as they were written, up to the end of the tag
(`readAttributes_written`). `Legible` says that the written names of a node mean its names where
prefixes are bound as in a scope; the declarations in front of the attributes of a root bind them
(`bindings_declared`) and are no attributes (`attributes_written`).
-/

namespace Cuesheet.Xml

namespace Item

/-! ## Attributes -/

theorem skipSpace_of_head {cs : List Char} (h : ∀ c, cs.head? = some c → isSpace c = false) :
    skipSpace cs = ⟨cs, Nat.le_refl _⟩ := by
  refine Subtype.ext ?_
  cases cs with
  | nil => rfl
  | cons c rest => simp [skipSpace, h c rfl]

theorem quotedValue_written {raw : List Char} (h : '"' ∉ raw) (rest : List Char) :
    Reads (quotedValue ('"' :: (raw ++ '"' :: rest))) raw rest := by
  obtain ⟨hle, hread⟩ := until?_of_notMem h rest
  refine ⟨Nat.lt_succ_of_le hle, ?_⟩
  simp [quotedValue, hread]

theorem writtenAttribute_quoted {name raw : List Char} (h : IsQualified name) (hraw : '"' ∉ raw)
    (rest : List Char) :
    Reads (writtenAttribute (name ++ '=' :: '"' :: (raw ++ '"' :: rest))) (name, raw) rest := by
  have hends : EndsName ('=' :: '"' :: (raw ++ '"' :: rest)) :=
    endsName_cons (isNameChar_mark (by decide)) (by decide)
  obtain ⟨hname, hreadName⟩ := reads_qualifiedName h hends
  obtain ⟨hvalue, hreadValue⟩ := quotedValue_written hraw rest
  have hequals : skipSpace ('=' :: '"' :: (raw ++ '"' :: rest)) =
      ⟨_, Nat.le_refl _⟩ := skipSpace_of_head (by rintro c ⟨⟩; rfl)
  have hquote : skipSpace ('"' :: (raw ++ '"' :: rest)) =
      ⟨_, Nat.le_refl _⟩ := skipSpace_of_head (by rintro c ⟨⟩; rfl)
  rw [writtenAttribute, hreadName]
  dsimp only
  rw [hequals]
  dsimp only
  rw [afterChar?_cons_self]
  dsimp only
  rw [hquote]
  dsimp only
  rw [hreadValue]
  exact ⟨_, rfl⟩

theorem writtenAttribute_written {name : List Char} (h : IsQualified name) (value : List Char)
    (rest : List Char) :
    Reads (writtenAttribute (name ++ '=' :: '"' :: (value.flatMap valueChar ++ '"' :: rest)))
      (name, value.flatMap valueChar) rest :=
  writtenAttribute_quoted h (quote_notMem_written value) rest

/-- In front of an attribute one blank is skipped. -/
theorem skipSpace_attribute {name : List Char} (h : Whole name) (rest : List Char) :
    skipSpace (' ' :: (name ++ '=' :: rest)) = ⟨name ++ '=' :: rest, Nat.le_succ _⟩ := by
  have hhead : ∀ c, (name ++ '=' :: rest).head? = some c → isSpace c = false := by
    cases name with
    | nil =>
        rintro c ⟨⟩
        rfl
    | cons c more =>
        rintro d ⟨⟩
        exact h.isSpace_eq_false List.mem_cons_self
  refine Subtype.ext ?_
  have hskip := congrArg Subtype.val (skipSpace_of_head hhead)
  have hblank : isSpace ' ' = true := rfl
  simpa [skipSpace, hblank] using hskip

/-- An attribute does not end a tag. -/
theorem tagEnd?_attribute {name : List Char} (h : Whole name) (rest : List Char) :
    tagEnd? (name ++ '=' :: rest) = none := by
  have hclose : '>' ∉ name := h '>' (by decide)
  cases name with
  | nil => simp [tagEnd?, after?, List.isPrefixOf]
  | cons c more =>
      obtain ⟨hc, hmore⟩ := not_or.mp (mt List.mem_cons.mpr hclose)
      have hnext : ¬ ['>'] <+: more ++ '=' :: rest := by
        cases more with
        | nil => simp
        | cons d more =>
            have hd : '>' ≠ d := fun heq => hmore (heq ▸ List.mem_cons_self)
            simp [hd]
      simp [tagEnd?, after?, hc, hnext]

/-- What stands at the end of a tag is its end. -/
def EndsTag (ending : List Char) (tagEnd : TagEnd) (rest : List Char) : Prop :=
  ∃ h, readAttributes {} [] ending = .ok ([], tagEnd, ⟨rest, h⟩)

/-- A tag ends where an end of one stands behind spaces. -/
theorem endsTag_of_tagEnd? {ending rest : List Char} {tagEnd : TagEnd}
    (h : ∃ hle, tagEnd? (skipSpace ending).1 = some (tagEnd, ⟨rest, hle⟩)) :
    EndsTag ending tagEnd rest := by
  obtain ⟨hle, h⟩ := h
  refine ⟨Text.length_le_trans hle (skipSpace ending).2, ?_⟩
  rw [readAttributes]
  dsimp only
  rw [h]

theorem endsTag_empty (rest : List Char) : EndsTag (' ' :: '/' :: '>' :: rest) .empty rest :=
  endsTag_of_tagEnd? ⟨_, rfl⟩

theorem endsTag_slash (rest : List Char) : EndsTag ('/' :: '>' :: rest) .empty rest :=
  endsTag_of_tagEnd? ⟨_, rfl⟩

theorem endsTag_opened (rest : List Char) : EndsTag ('>' :: rest) .opened rest :=
  endsTag_of_tagEnd? ⟨_, rfl⟩

/-- An attribute in front of others is read if its value is, under a name that no other has. -/
theorem readAttributes_cons_iff {name raw behind rest : List Char} {tagEnd : TagEnd}
    {pairs : List (String × String)} (hname : IsQualified name) (hraw : '"' ∉ raw) :
    (∃ h, readAttributes {} [] (' ' :: (name ++ '=' :: '"' :: (raw ++ '"' :: behind))) =
        .ok (pairs, tagEnd, ⟨rest, h⟩)) ↔
      ∃ value more, Entities.attributeValue {} raw = .ok value ∧
        (∃ h, readAttributes {} [] behind = .ok (more, tagEnd, ⟨rest, h⟩)) ∧
        String.ofList name ∉ more.map (·.1) ∧
        pairs = (String.ofList name, String.ofList value) :: more := by
  have hskip := skipSpace_attribute hname.whole ('"' :: (raw ++ '"' :: behind))
  have hend := tagEnd?_attribute hname.whole ('"' :: (raw ++ '"' :: behind))
  obtain ⟨hlt, hattribute⟩ := writtenAttribute_quoted hname hraw behind
  generalize name ++ '=' :: '"' :: (raw ++ '"' :: behind) = body at hskip hend hlt hattribute
  have hlength : body.length ≠ (' ' :: body).length := Nat.ne_of_lt (Nat.lt_succ_self _)
  have htaken : ∀ {more : List (String × String)},
      more.any (fun pair => pair.1 == String.ofList name) = true ↔
        String.ofList name ∈ more.map (·.1) := by
    intro more
    simp [List.any_eq_true]
  rw [readAttributes, hskip]
  dsimp only
  rw [hend]
  dsimp only
  rw [if_neg hlength, hattribute]
  dsimp only
  constructor
  · rintro ⟨hle, hread⟩
    cases hvalue : Entities.attributeValue {} raw with
    | error fault => rw [hvalue] at hread; cases hread
    | ok value =>
        rw [hvalue] at hread
        dsimp only at hread
        cases hmore : readAttributes {} [] behind with
        | error fault => rw [hmore] at hread; cases hread
        | ok found =>
            rw [hmore] at hread
            dsimp only at hread
            split at hread
            · cases hread
            · rename_i hfresh
              cases hread
              exact ⟨value, _, rfl, ⟨_, rfl⟩, fun hmem => hfresh (htaken.mpr hmem), rfl⟩
  · rintro ⟨value, more, hvalue, ⟨hle, hmore⟩, hfresh, rfl⟩
    rw [hvalue]
    dsimp only
    rw [hmore]
    dsimp only
    rw [if_neg (mt htaken.mp hfresh)]
    exact ⟨_, rfl⟩

theorem attributeChars_cons (pair : String × String) (more : List (String × String))
    (ending : List Char) :
    (pair :: more).flatMap (fun pair => attributeChars pair.1 pair.2) ++ ending =
      ' ' :: (pair.1.toList ++ '=' :: '"' :: (pair.2.toList.flatMap valueChar ++
        '"' :: (more.flatMap (fun pair => attributeChars pair.1 pair.2) ++ ending))) := by
  simp [attributeChars]

theorem readAttributes_written {pairs : List (String × String)}
    (hnames : ∀ pair ∈ pairs, IsQualified pair.1.toList) (hnodup : (pairs.map (·.1)).Nodup)
    {ending rest : List Char} {tagEnd : TagEnd} (hending : EndsTag ending tagEnd rest) :
    ∃ h, readAttributes {} [] (pairs.flatMap (fun pair => attributeChars pair.1 pair.2) ++ ending)
      = .ok (pairs, tagEnd, ⟨rest, h⟩) := by
  induction pairs with
  | nil => exact hending
  | cons pair more ih =>
      obtain ⟨name, value⟩ := pair
      obtain ⟨hname, hnames⟩ := List.forall_mem_cons.mp hnames
      obtain ⟨hnew, hmore⟩ := List.nodup_cons.mp hnodup
      rw [attributeChars_cons, readAttributes_cons_iff hname (quote_notMem_written _)]
      exact ⟨value.toList, more, attributeValue_written _, ih hnames hmore,
        by simpa using hnew, by simp⟩

theorem withDefaults_nil (given : List (String × String)) : withDefaults [] given = given := by
  simp [withDefaults]

end Item

/-! ## What written names mean -/

/-- The names of a node, written, mean its names where prefixes are bound as in a scope. -/
structure Legible (written : String → String) (scope : Scope) (node : Node) : Prop where
  name : IsQualified (written node.name).toList
  meansName : scope.elementName (written node.name) = .ok node.name
  keys : ∀ key ∈ node.attributes.keys, IsQualified (written key).toList
  unbinding : ∀ key ∈ node.attributes.keys, Scope.boundPrefix? (written key) = none
  meansKeys : ∀ key ∈ node.attributes.keys, scope.attributeName (written key) = .ok key
  nodup : node.attributes.keys.Nodup

/-- The names of a node, written, stay in one piece and declare no prefix. -/
structure Inscribed (written : String → String) (node : Node) : Prop where
  name : IsQualified (written node.name).toList
  keys : ∀ key ∈ node.attributes.keys, Whole (written key).toList
  unbinding : ∀ key ∈ node.attributes.keys, Scope.boundPrefix? (written key) = none

theorem Legible.inscribed {written : String → String} {scope : Scope} {node : Node}
    (h : Legible written scope node) : Inscribed written node :=
  ⟨h.name, fun key hkey => (h.keys key hkey).whole, h.unbinding⟩

/-- The name of the attribute that declares a prefix. -/
def declarationName (label : String) : String :=
  if label.isEmpty then "xmlns" else "xmlns:" ++ label

/-- Declarations that may stand on a root. -/
structure Declarable (declarations : List (String × String)) : Prop where
  labels : ∀ entry ∈ declarations, isSimpleName entry.1.toList = true
  faultless : ∀ entry ∈ declarations, Scope.bindingFault? entry.1 entry.2 = none
  nodup : (declarations.map (·.1)).Nodup

theorem Declarable.nil : Declarable [] := ⟨nofun, nofun, List.nodup_nil⟩

/-- The attributes of a tag as they are written. -/
def tagAttributes (written : String → String) (declarations : List (String × String))
    (attributes : Entries String String) : List (String × String) :=
  declarations.map (fun entry => (declarationName entry.1, entry.2)) ++
    List.map (fun entry => (written entry.1, entry.2)) attributes

variable {written : String → String} {declarations : List (String × String)} {scope : Scope}
  {node : Node}

theorem declarationName_eq {label : String} (h : isSimpleName label.toList = true) :
    declarationName label = "xmlns" ++ ":" ++ label := by
  have hne : label.isEmpty = false := by
    rw [String.isEmpty_eq_false_iff]
    rintro rfl
    cases h
  simp [declarationName, hne]

theorem isSimpleName_xmlns : isSimpleName "xmlns".toList = true := by decide

theorem isQualified_declarationName {label : String} (h : isSimpleName label.toList = true) :
    IsQualified (declarationName label).toList := by
  rw [declarationName_eq h]
  exact .inr ⟨"xmlns".toList, label.toList, by simp, isSimpleName_xmlns, h⟩

theorem boundPrefix?_declarationName {label : String} (h : isSimpleName label.toList = true) :
    Scope.boundPrefix? (declarationName label) = some label := by
  rw [declarationName_eq h, Scope.boundPrefix?, Scope.splitName_prefixed isSimpleName_xmlns]
  simp

theorem declarationName_inj {label label' : String} (h : isSimpleName label.toList = true)
    (h' : isSimpleName label'.toList = true)
    (heq : declarationName label = declarationName label') : label = label' := by
  have hbound := boundPrefix?_declarationName h
  rw [heq, boundPrefix?_declarationName h'] at hbound
  exact (Option.some.inj hbound).symm

theorem isQualified_tagAttributes (hdeclared : Declarable declarations)
    (hlegible : Legible written scope node) {pair : String × String}
    (h : pair ∈ tagAttributes written declarations node.attributes) :
    IsQualified pair.1.toList := by
  rcases List.mem_append.mp h with h | h
  · obtain ⟨entry, hentry, rfl⟩ := List.mem_map.mp h
    exact isQualified_declarationName (hdeclared.labels entry hentry)
  · obtain ⟨entry, hentry, rfl⟩ := List.mem_map.mp h
    exact hlegible.keys entry.1 (List.mem_map.mpr ⟨entry, hentry, rfl⟩)

theorem whole_tagAttributes (hdeclared : Declarable declarations) (h : Inscribed written node)
    {pair : String × String} (hpair : pair ∈ tagAttributes written declarations node.attributes) :
    Whole pair.1.toList := by
  rcases List.mem_append.mp hpair with hpair | hpair
  · obtain ⟨entry, hentry, rfl⟩ := List.mem_map.mp hpair
    exact (isQualified_declarationName (hdeclared.labels entry hentry)).whole
  · obtain ⟨entry, hentry, rfl⟩ := List.mem_map.mp hpair
    exact h.keys entry.1 (List.mem_map.mpr ⟨entry, hentry, rfl⟩)

theorem nodup_tagAttributes (hdeclared : Declarable declarations)
    (hlegible : Legible written scope node) :
    ((tagAttributes written declarations node.attributes).map (·.1)).Nodup := by
  have hdeclarations : (declarations.map fun entry => declarationName entry.1).Nodup := by
    refine List.Nodup.of_map (fun name => Scope.boundPrefix? name) ?_
    have hbound : (declarations.map fun entry => declarationName entry.1).map
        (fun name => Scope.boundPrefix? name) = (declarations.map (·.1)).map some := by
      rw [List.map_map, List.map_map]
      refine List.map_congr_left fun entry hentry => ?_
      exact boundPrefix?_declarationName (hdeclared.labels entry hentry)
    rw [hbound]
    exact hdeclared.nodup.map fun _ _ heq => Option.some.inj heq
  have hkeys : (node.attributes.keys.map written).Nodup := by
    refine hlegible.nodup.map_on fun key hkey key' hkey' heq => ?_
    have hmeans := hlegible.meansKeys key hkey
    rw [heq, hlegible.meansKeys key' hkey'] at hmeans
    exact (Except.ok.inj hmeans).symm
  rw [tagAttributes, List.map_append, List.map_map, List.map_map]
  refine List.nodup_append.mpr ⟨hdeclarations, ?_, ?_⟩
  · simpa [Entries.keys, Function.comp_def] using hkeys
  rintro name hname name' hname' rfl
  obtain ⟨entry, hentry, rfl⟩ := List.mem_map.mp hname
  obtain ⟨entry', hentry', heq⟩ := List.mem_map.mp hname'
  have hbinds := boundPrefix?_declarationName (hdeclared.labels entry hentry)
  have hnot := hlegible.unbinding entry'.1 (List.mem_map.mpr ⟨entry', hentry', rfl⟩)
  have heq : written entry'.1 = declarationName entry.1 := heq
  rw [heq, hbinds] at hnot
  cases hnot

namespace Scope

theorem bindings_of_unbinding {pairs : List (String × String)}
    (h : ∀ pair ∈ pairs, boundPrefix? pair.1 = none) : bindings pairs = .ok [] := by
  induction pairs with
  | nil => rfl
  | cons pair more ih =>
      obtain ⟨hpair, hmore⟩ := List.forall_mem_cons.mp h
      rw [bindings, hpair]
      exact ih hmore

theorem bindings_declared (hdeclared : Declarable declarations)
    {pairs : List (String × String)} (h : bindings pairs = .ok []) :
    bindings (declarations.map (fun entry => (declarationName entry.1, entry.2)) ++ pairs) =
      .ok declarations := by
  obtain ⟨hlabels, hfaultless, -⟩ := hdeclared
  induction declarations with
  | nil => exact h
  | cons entry more ih =>
      obtain ⟨hlabel, hlabels⟩ := List.forall_mem_cons.mp hlabels
      obtain ⟨hfault, hfaultless⟩ := List.forall_mem_cons.mp hfaultless
      rw [List.map_cons, List.cons_append, bindings, boundPrefix?_declarationName hlabel]
      simp [hfault, ih hlabels hfaultless, Except.map]

/-- Where declarations bind at all they bind without fault. -/
theorem faultless_of_bindings {bound : List (String × String)}
    (hlabels : ∀ entry ∈ declarations, isSimpleName entry.1.toList = true)
    (h : bindings (declarations.map fun entry => (declarationName entry.1, entry.2)) = .ok bound) :
    ∀ entry ∈ declarations, bindingFault? entry.1 entry.2 = none := by
  induction declarations generalizing bound with
  | nil => exact List.forall_mem_nil _
  | cons entry more ih =>
      obtain ⟨hlabel, hlabels⟩ := List.forall_mem_cons.mp hlabels
      rw [List.map_cons, bindings, boundPrefix?_declarationName hlabel] at h
      dsimp only at h
      split at h
      · cases h
      · rename_i hfault
        cases hmore : bindings (more.map fun entry => (declarationName entry.1, entry.2)) with
        | error fault => rw [hmore] at h; cases h
        | ok bound' => exact List.forall_mem_cons.mpr ⟨hfault, ih hlabels hmore⟩

theorem attributes_append_of_binding {bound pairs : List (String × String)}
    (h : ∀ pair ∈ bound, (boundPrefix? pair.1).isSome = true) :
    attributes scope (bound ++ pairs) = attributes scope pairs := by
  induction bound with
  | nil => rfl
  | cons pair more ih =>
      obtain ⟨hpair, hmore⟩ := List.forall_mem_cons.mp h
      rw [List.cons_append, attributes, if_pos hpair]
      exact ih hmore

theorem attributes_written {entries : Entries String String} (hnodup : entries.keys.Nodup)
    (hunbinding : ∀ key ∈ entries.keys, boundPrefix? (written key) = none)
    (hmeans : ∀ key ∈ entries.keys, scope.attributeName (written key) = .ok key) :
    attributes scope (List.map (fun entry => (written entry.1, entry.2)) entries) =
      .ok entries := by
  induction entries with
  | nil => rfl
  | cons entry more ih =>
      obtain ⟨hnew, hnodup⟩ := List.nodup_cons.mp hnodup
      obtain ⟨hfree, hunbinding⟩ := List.forall_mem_cons.mp hunbinding
      obtain ⟨hmean, hmeans⟩ := List.forall_mem_cons.mp hmeans
      have hfresh : List.any more (fun entry' => entry'.1 == entry.1) = false := by
        rw [List.any_eq_false]
        intro entry' hentry' heq
        exact hnew (List.mem_map.mpr ⟨entry', hentry', eq_of_beq heq⟩)
      rw [List.map_cons, attributes, hfree, hmean, ih hnodup hunbinding hmeans]
      simp [hfresh]

end Scope

/-! ## Both together -/

theorem bindings_tagAttributes (hdeclared : Declarable declarations)
    (h : Inscribed written node) :
    Scope.bindings (tagAttributes written declarations node.attributes) = .ok declarations := by
  refine Scope.bindings_declared hdeclared (Scope.bindings_of_unbinding fun pair hpair => ?_)
  obtain ⟨entry, hentry, rfl⟩ := List.mem_map.mp hpair
  exact h.unbinding entry.1 (List.mem_map.mpr ⟨entry, hentry, rfl⟩)

/-- Declarations are not among the attributes that a tag is read with. -/
theorem attributes_tagAttributes_eq (hdeclared : Declarable declarations)
    (attributes : Entries String String) :
    Scope.attributes scope (tagAttributes written declarations attributes) =
      Scope.attributes scope (List.map (fun entry => (written entry.1, entry.2)) attributes) := by
  refine Scope.attributes_append_of_binding fun pair hpair => ?_
  obtain ⟨entry, hentry, rfl⟩ := List.mem_map.mp hpair
  rw [boundPrefix?_declarationName (hdeclared.labels entry hentry)]
  rfl

theorem attributes_tagAttributes (hdeclared : Declarable declarations)
    (hlegible : Legible written scope node) :
    Scope.attributes scope (tagAttributes written declarations node.attributes) =
      .ok node.attributes := by
  rw [attributes_tagAttributes_eq hdeclared]
  exact Scope.attributes_written hlegible.nodup hlegible.unbinding hlegible.meansKeys

end Cuesheet.Xml
