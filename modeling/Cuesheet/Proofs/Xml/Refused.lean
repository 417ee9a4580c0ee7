import Cuesheet.Proofs.Xml.Rereading
import Mathlib.Data.List.TakeWhile

/-!
# Trees that are not read back

A tag is read only if the names of its attributes, as they are written, are qualified and no two
are the same (`Item.qualified_of_readAttributes`), and it resolves only if their prefixes are bound
and no two of them mean the same: the attributes of the node are `Tagged`. Any other node is refused
(`refusesElement_tag`), and so is one around a refused node (`refusesElement_inside`) and content
that comes to one, whatever text stands in front of it (`RefusesContent.text`).
-/

namespace Cuesheet.Xml

/-! ## Names that are read -/

theorem takeWhile_append_cons {p : Char → Bool} {c : Char} (h : p c = false)
    (cs rest : List Char) : (cs ++ c :: rest).takeWhile p = cs.takeWhile p ∧
      (cs ++ c :: rest).dropWhile p = cs.dropWhile p ++ c :: rest := by
  induction cs with
  | nil => simp [h]
  | cons d more ih =>
      cases hd : p d with
      | true => simpa [hd] using ih
      | false => simp [hd]

theorem simpleName_before_equals {cs rest first : List Char}
    {after : { after : List Char // after.length < (cs ++ '=' :: rest).length }}
    (h : simpleName (cs ++ '=' :: rest) = .ok (first, after)) :
    isSimpleName first = true ∧ ∃ more, cs = first ++ more ∧ after.1 = more ++ '=' :: rest := by
  have hmark : isNameStart '=' = false ∧ isNameChar '=' = false :=
    ⟨isNameStart_mark (by decide), isNameChar_mark (by decide)⟩
  cases cs with
  | nil =>
      simp [simpleName, hmark.1] at h
  | cons c more =>
      obtain ⟨htake, hdrop⟩ := takeWhile_append_cons hmark.2 more rest
      simp only [List.cons_append, simpleName] at h
      split at h
      · rename_i hc
        cases h
        refine ⟨isSimpleName_cons.mpr ⟨hc, fun d hd => List.mem_takeWhile_imp hd⟩,
          more.dropWhile isNameChar, ?_, hdrop⟩
        rw [htake, List.cons_append, List.takeWhile_append_dropWhile]
      · cases h

/-- A name is read up to the equals sign, or up to a character in front of it. -/
theorem qualifiedName_before_equals {cs rest name : List Char}
    {after : { after : List Char // after.length < (cs ++ '=' :: rest).length }}
    (h : qualifiedName (cs ++ '=' :: rest) = .ok (name, after)) :
    IsQualified cs ∨ ∃ c ∈ cs, ∃ more, after.1 = c :: more := by
  unfold qualifiedName at h
  cases hfirst : simpleName (cs ++ '=' :: rest) with
  | error fault => rw [hfirst] at h; cases h
  | ok found =>
      obtain ⟨first, back, hback⟩ := found
      obtain ⟨hname, more, rfl, hrest⟩ := simpleName_before_equals hfirst
      obtain rfl : back = more ++ '=' :: rest := hrest
      rw [hfirst] at h
      dsimp only at h
      cases more with
      | nil => exact .inl (.inl (by rwa [List.append_nil]))
      | cons c more =>
          by_cases hc : c = ':'
          · subst hc
            simp only [List.cons_append, afterChar?_cons_self] at h
            cases hsecond : simpleName (more ++ '=' :: rest) with
            | error fault => rw [hsecond] at h; cases h
            | ok found =>
                obtain ⟨second, back, hback'⟩ := found
                obtain ⟨hpart, more, rfl, hrest⟩ := simpleName_before_equals hsecond
                obtain rfl : back = more ++ '=' :: rest := hrest
                rw [hsecond] at h
                cases h
                cases more with
                | nil => exact .inl (.inr ⟨first, second, by simp, hname, hpart⟩)
                | cons c more => exact .inr ⟨c, by simp, _, rfl⟩
          · have hnone : afterChar? ':' (c :: more ++ '=' :: rest) = none := by
              simp [afterChar?, hc]
            rw [hnone] at h
            cases h
            exact .inr ⟨c, by simp, _, rfl⟩

namespace Item

theorem isQualified_of_writtenAttribute {cs rest : List Char} (hcs : Whole cs)
    {result : (List Char × List Char) ×
      { after : List Char // after.length < (cs ++ '=' :: rest).length }}
    (h : writtenAttribute (cs ++ '=' :: rest) = .ok result) : IsQualified cs := by
  unfold writtenAttribute at h
  cases hname : qualifiedName (cs ++ '=' :: rest) with
  | error fault => rw [hname] at h; cases h
  | ok found =>
      obtain ⟨name, back, hback⟩ := found
      rcases qualifiedName_before_equals hname with hqualified | ⟨c, hc, more, rfl⟩
      · exact hqualified
      · have hskip : skipSpace (c :: more) = ⟨c :: more, Nat.le_refl _⟩ :=
          skipSpace_of_head (by rintro d ⟨⟩; exact hcs.isSpace_eq_false hc)
        have hequals : '=' ≠ c := by
          rintro rfl
          exact hcs '=' (by decide) hc
        have hnone : afterChar? '=' (c :: more) = none := by
          simp [afterChar?, hequals.symm]
        rw [hname] at h
        dsimp only at h
        rw [hskip] at h
        dsimp only at h
        rw [hnone] at h
        cases h

/-- Where an attribute is read, what follows it is, and has no attribute of its name. -/
theorem readAttributes_inv {name back : List Char} (hname : Whole name)
    (h : ∃ result, readAttributes {} [] (' ' :: (name ++ '=' :: back)) = .ok result) :
    ∃ name' raw rest, Reads (writtenAttribute (name ++ '=' :: back)) (name', raw) rest ∧
      ∃ more tagEnd after, readAttributes {} [] rest = .ok (more, tagEnd, after) ∧
        more.any (fun pair => pair.1 == String.ofList name') = false := by
  have hskip := skipSpace_attribute hname back
  have hend := tagEnd?_attribute hname back
  generalize name ++ '=' :: back = body at h hskip hend
  have hlength : body.length ≠ (' ' :: body).length := Nat.ne_of_lt (Nat.lt_succ_self _)
  obtain ⟨result, h⟩ := h
  rw [readAttributes, hskip] at h
  dsimp only at h
  rw [hend] at h
  dsimp only at h
  rw [if_neg hlength] at h
  cases hattribute : writtenAttribute body with
  | error fault => rw [hattribute] at h; cases h
  | ok found =>
      obtain ⟨⟨name', raw⟩, rest, hlt⟩ := found
      rw [hattribute] at h
      dsimp only at h
      split at h
      · cases h
      · split at h
        · cases h
        · rename_i more tagEnd rest' hle hmore
          split at h
          · cases h
          · rename_i hfresh
            exact ⟨name', raw, rest, ⟨hlt, rfl⟩, more, tagEnd, _, hmore,
              Bool.eq_false_iff.mpr hfresh⟩

/-- Attributes that are read have qualified names, no two of them the same. -/
theorem qualified_of_readAttributes {pairs : List (String × String)}
    (hwhole : ∀ pair ∈ pairs, Whole pair.1.toList) {ending rest : List Char} {tagEnd : TagEnd}
    (hending : EndsTag ending tagEnd rest)
    (h : ∃ result, readAttributes {} [] (pairs.flatMap (fun pair => attributeChars pair.1 pair.2)
      ++ ending) = .ok result) :
    (∀ pair ∈ pairs, IsQualified pair.1.toList) ∧ (pairs.map (·.1)).Nodup := by
  induction pairs with
  | nil => exact ⟨nofun, List.nodup_nil⟩
  | cons pair more ih =>
      obtain ⟨name, value⟩ := pair
      obtain ⟨hname, hmore⟩ := List.forall_mem_cons.mp hwhole
      rw [attributeChars_cons] at h
      obtain ⟨name', raw, behind, ⟨hlt, hread⟩, others, tagEnd', after, hothers, hfresh⟩ :=
        readAttributes_inv hname h
      have hqualified : IsQualified name.toList := isQualified_of_writtenAttribute hname hread
      obtain ⟨hlt', hread'⟩ := writtenAttribute_written hqualified value.toList
        (more.flatMap (fun pair => attributeChars pair.1 pair.2) ++ ending)
      rw [hread'] at hread
      cases hread
      obtain ⟨hall, hnodup⟩ := ih hmore ⟨_, hothers⟩
      obtain ⟨hle, hwritten⟩ := readAttributes_written hall hnodup hending
      rw [hwritten] at hothers
      cases hothers
      refine ⟨List.forall_mem_cons.mpr ⟨hqualified, hall⟩, List.nodup_cons.mpr ⟨?_, hnodup⟩⟩
      intro hmem
      obtain ⟨pair, hpair, heq⟩ := List.mem_map.mp hmem
      have hother := List.any_eq_false.mp hfresh pair hpair
      simp [heq] at hother

end Item

/-! ## Tags that are read -/

/-- The attributes of a node, as they are written, can stand in one tag: their names are qualified,
the prefixes are bound, and no two mean the same. -/
structure Tagged (written : String → String) (scope : Scope) (node : Node) : Prop where
  keys : ∀ key ∈ node.attributes.keys, IsQualified (written key).toList
  bound : ∀ key ∈ node.attributes.keys, ∃ name, scope.attributeName (written key) = .ok name
  distinct : (node.attributes.keys.map fun key => scope.attributeName (written key)).Nodup

namespace Scope

/-- Attributes that are resolved have names that are bound, no two of which mean the same. -/
theorem attributes_inv {scope : Scope} {pairs entries : List (String × String)}
    (hunbinding : ∀ pair ∈ pairs, boundPrefix? pair.1 = none)
    (h : attributes scope pairs = .ok entries) :
    pairs.map (fun pair => scope.attributeName pair.1) = entries.map (fun entry => .ok entry.1) ∧
      (entries.map (·.1)).Nodup := by
  induction pairs generalizing entries with
  | nil =>
      cases h
      exact ⟨rfl, List.nodup_nil⟩
  | cons pair more ih =>
      obtain ⟨hpair, hmore⟩ := List.forall_mem_cons.mp hunbinding
      rw [attributes, hpair] at h
      simp only [Option.isSome_none, Bool.false_eq_true, if_false] at h
      split at h
      · cases h
      · rename_i expanded hexpanded
        split at h
        · cases h
        · rename_i others hothers
          split at h
          · cases h
          · rename_i hfresh
            cases h
            obtain ⟨hnames, hnodup⟩ := ih hmore hothers
            refine ⟨by rw [List.map_cons, List.map_cons, hexpanded, hnames], ?_⟩
            refine List.nodup_cons.mpr ⟨fun hmem => hfresh ?_, hnodup⟩
            obtain ⟨entry, hentry, heq⟩ := List.mem_map.mp hmem
            exact List.any_eq_true.mpr ⟨entry, hentry, beq_iff_eq.mpr heq⟩

end Scope

variable {written : String → String} {declarations : List (String × String)} {scope : Scope}
  {node : Node} {name cs rest : List Char}

/-- What an element resolves to is resolved from its tag and from what stands inside and behind. -/
theorem resolve_element_inv {pairs : List (String × String)} {content items : List Item}
    {resolved : Resolved}
    (h : resolve scope (.element name pairs content :: items) = .ok resolved) :
    (∃ bound, Scope.bindings pairs = .ok bound ∧
      (∃ entries, Scope.attributes (bound.reverse ++ scope) pairs = .ok entries) ∧
      ∃ inside, resolve (bound.reverse ++ scope) content = .ok inside) ∧
    ∃ after, resolve scope items = .ok after := by
  rw [resolve] at h
  split at h
  · cases h
  · rename_i bound hbound
    dsimp only at h
    split at h
    · cases h
    · cases h
    · rename_i hattributes
      split at h
      · cases h
      · rename_i inside hinside
        split at h
        · cases h
        · rename_i after hafter
          exact ⟨⟨bound, hbound, ⟨_, hattributes⟩, inside, hinside⟩, after, hafter⟩

theorem resolve_cons_inv {item : Item} {items : List Item} {resolved : Resolved}
    (h : resolve scope (item :: items) = .ok resolved) : ∃ after, resolve scope items = .ok after := by
  cases item with
  | text cs =>
      rw [resolve] at h
      split at h
      · cases h
      · rename_i after hafter
        exact ⟨after, hafter⟩
  | element name pairs content => exact (resolve_element_inv h).2

/-- An element that is read has a tag that is, and is what stands in it. -/
theorem readElement_inv {pairs : List (String × String)} {ending inside : List Char}
    {tagEnd : Item.TagEnd} (hname : IsQualified name)
    (hwhole : ∀ pair ∈ pairs, Whole pair.1.toList) (hends : EndsName ending)
    (hending : Item.EndsTag ending tagEnd inside) {item : Item}
    (h : Reads (Item.readElement {} []
      (name ++ (pairs.flatMap (fun pair => attributeChars pair.1 pair.2) ++ ending))) item rest) :
    (∀ pair ∈ pairs, IsQualified pair.1.toList) ∧ ∃ content, item = .element name pairs content ∧
      (tagEnd = .opened →
        ∃ after, Item.readContent {} [] inside = .ok (content, after)) := by
  obtain ⟨found, ending', ⟨inside', hle⟩, content, hattributes, rfl, hcontent⟩ :=
    readElement_split (reads_qualifiedName hname (endsName_attributes pairs hends)) h
  obtain ⟨hqualified, hnodup⟩ :=
    Item.qualified_of_readAttributes hwhole hending ⟨_, hattributes⟩
  obtain ⟨hle', hwritten⟩ := Item.readAttributes_written hqualified hnodup hending
  rw [hwritten] at hattributes
  cases hattributes
  exact ⟨hqualified, content, rfl, hcontent⟩

/-! ## Content that is refused -/

/-- Content is not read, or does not resolve. -/
def RefusesContent (scope : Scope) (cs : List Char) : Prop :=
  ∀ items after, Item.readContent {} [] cs = .ok (items, after) →
    ∀ resolved, resolve scope items ≠ .ok resolved

/-- An element is not read, or does not resolve. -/
def RefusesElement (scope : Scope) (cs : List Char) : Prop :=
  ∀ item rest, Reads (Item.readElement {} [] cs) item rest →
    ∀ items resolved, resolve scope (item :: items) ≠ .ok resolved

theorem resolve_append_inv {front items : List Item} {resolved : Resolved}
    (h : resolve scope (front ++ items) = .ok resolved) : ∃ after, resolve scope items = .ok after := by
  induction front generalizing resolved with
  | nil => exact ⟨resolved, h⟩
  | cons item more ih =>
      obtain ⟨after, hafter⟩ := resolve_cons_inv h
      exact ih hafter

theorem RefusesContent.text (h : RefusesContent scope cs) (text : List Char)
    (hcs : cs.head? = some '<') : RefusesContent scope (text.flatMap textChar ++ cs) := by
  obtain ⟨texts, -, hfirst⟩ := readsFirst_text text hcs
  intro items after hread resolved hresolve
  cases halone : Item.readContent {} [] cs with
  | error fault =>
      rw [hfirst.error halone] at hread
      cases hread
  | ok found =>
      obtain ⟨behind, rest, hle⟩ := found
      obtain ⟨hle', hall⟩ := hfirst.ok halone
      rw [hall] at hread
      cases hread
      obtain ⟨resolved', hresolve'⟩ := resolve_append_inv hresolve
      exact h behind _ halone resolved' hresolve'

theorem readContent_element_inv {items : List Item} {after : Rest ('<' :: cs)}
    (hstart : ∃ c tail, cs = c :: tail ∧ isNameStart c = true)
    (h : Item.readContent {} [] ('<' :: cs) = .ok (items, after)) :
    ∃ item mid items', Reads (Item.readElement {} [] cs) item mid ∧
      (∃ after, Item.readContent {} [] mid = .ok (items', after)) ∧ items = item :: items' := by
  obtain ⟨c, tail, rfl, hstart⟩ := hstart
  have hmark : ∀ d, isNameStart d = false → ∀ more, c :: tail = d :: more → False :=
    fun d hd more heq => ne_of_isNameStart hstart hd (List.cons.inj heq).1
  rw [Item.readContent] at h
  · split at h
    · cases h
    · rename_i item mid hlt hitem
      split at h
      · cases h
      · rename_i items' after' hle hitems
        cases h
        exact ⟨item, mid, items', ⟨hlt, hitem⟩, ⟨_, hitems⟩, rfl⟩
  · exact hmark '/' (isNameStart_mark (by decide))
  · exact fun more => hmark '!' (isNameStart_mark (by decide)) _
  · exact hmark '!' (isNameStart_mark (by decide))
  · exact hmark '?' (isNameStart_mark (by decide))

theorem RefusesElement.content (h : RefusesElement scope cs)
    (hstart : ∃ c tail, cs = c :: tail ∧ isNameStart c = true) :
    RefusesContent scope ('<' :: cs) := by
  intro items after hread resolved hresolve
  obtain ⟨item, mid, items', hitem, -, rfl⟩ := readContent_element_inv hstart hread
  exact h item mid hitem items' resolved hresolve

theorem RefusesContent.behind (h : RefusesContent scope rest)
    (hstart : ∃ c tail, cs = c :: tail ∧ isNameStart c = true) {item : Item}
    (hitem : Reads (Item.readElement {} [] cs) item rest) : RefusesContent scope ('<' :: cs) := by
  intro items after hread resolved hresolve
  obtain ⟨item', mid, items', ⟨hlt', hitem'⟩, ⟨after', hitems⟩, rfl⟩ :=
    readContent_element_inv hstart hread
  obtain ⟨hlt, hitem⟩ := hitem
  rw [hitem] at hitem'
  cases hitem'
  obtain ⟨resolved', hresolve'⟩ := resolve_cons_inv hresolve
  exact h items' after' hitems resolved' hresolve'

/-! ## Trees -/

/-- How the tag of a node is read and what its attributes resolve to. -/
theorem elementChars_inv (hdeclared : Declarable declarations) (hnames : Inscribed written node)
    {item : Item} (hread : Reads (Item.readElement {} []
      (elementChars written declarations node ++ cs)) item rest) :
    (∀ pair ∈ tagAttributes written declarations node.attributes, IsQualified pair.1.toList) ∧
      ∃ content, item = .element (written node.name).toList
          (tagAttributes written declarations node.attributes) content ∧
        ((node.text.isEmpty && node.children.isEmpty) = false →
          ∃ after, Item.readContent {} [] (insideChars written node ++
            '<' :: '/' :: ((written node.name).toList ++ '>' :: cs)) = .ok (content, after)) := by
  have hwhole : ∀ pair ∈ tagAttributes written declarations node.attributes, Whole pair.1.toList :=
    fun _ => whole_tagAttributes hdeclared hnames
  cases hempty : (node.text.isEmpty && node.children.isEmpty) with
  | true =>
      rw [elementChars_of_empty hempty] at hread
      obtain ⟨hqualified, content, hitem, -⟩ := readElement_inv hnames.name hwhole
        (endsName_cons (isNameChar_mark (by decide)) (by decide)) (Item.endsTag_empty cs) hread
      exact ⟨hqualified, content, hitem, nofun⟩
  | false =>
      rw [elementChars_of_inside hempty] at hread
      obtain ⟨hqualified, content, hitem, hinside⟩ := readElement_inv hnames.name hwhole
        (endsName_cons (isNameChar_mark (by decide)) (by decide)) (Item.endsTag_opened _) hread
      exact ⟨hqualified, content, hitem, fun _ => hinside rfl⟩

/-- A node is refused whose attributes cannot stand in one tag. -/
theorem refusesElement_tag (hdeclared : Declarable declarations) (hnames : Inscribed written node)
    (h : ¬ Tagged written (declarations.reverse ++ scope) node) (cs : List Char) :
    RefusesElement scope (elementChars written declarations node ++ cs) := by
  intro item rest hread items resolved hresolve
  obtain ⟨hqualified, content, rfl, -⟩ := elementChars_inv hdeclared hnames hread
  obtain ⟨⟨bound, hbound, ⟨entries, hentries⟩, -⟩, -⟩ := resolve_element_inv hresolve
  rw [bindings_tagAttributes hdeclared hnames] at hbound
  cases hbound
  rw [attributes_tagAttributes_eq hdeclared] at hentries
  obtain ⟨hmeanings, hnodup⟩ := Scope.attributes_inv (by
    intro pair hpair
    obtain ⟨entry, hentry, rfl⟩ := List.mem_map.mp hpair
    exact hnames.unbinding entry.1 (List.mem_map.mpr ⟨entry, hentry, rfl⟩)) hentries
  have hkeys : node.attributes.keys.map (fun key =>
      Scope.attributeName (declarations.reverse ++ scope) (written key)) =
        entries.map fun entry => .ok entry.1 := by
    rw [← hmeanings, Entries.keys, List.map_map, List.map_map]
    rfl
  refine h ⟨fun key hkey => ?_, fun key hkey => ?_, ?_⟩
  · obtain ⟨entry, hentry, rfl⟩ := List.mem_map.mp hkey
    exact hqualified (written entry.1, entry.2)
      (List.mem_append_right _ (List.mem_map.mpr ⟨entry, hentry, rfl⟩))
  · have hmem := List.mem_map_of_mem (f := fun key =>
      Scope.attributeName (declarations.reverse ++ scope) (written key)) hkey
    rw [hkeys] at hmem
    obtain ⟨entry, -, heq⟩ := List.mem_map.mp hmem
    exact ⟨entry.1, heq.symm⟩
  · rw [hkeys]
    have hsplit : entries.map (fun entry => (Except.ok entry.1 : Except Fault String)) =
        (entries.map (·.1)).map .ok := by rw [List.map_map]; rfl
    rw [hsplit]
    exact hnodup.map fun _ _ heq => Except.ok.inj heq

/-- So is one around what is refused. -/
theorem refusesElement_inside (hdeclared : Declarable declarations)
    (hnames : Inscribed written node) (hchildren : node.children ≠ [])
    (h : ∀ cs, RefusesContent (declarations.reverse ++ scope)
      (insideChars written node ++ '<' :: '/' :: cs)) (cs : List Char) :
    RefusesElement scope (elementChars written declarations node ++ cs) := by
  intro item rest hread items resolved hresolve
  obtain ⟨-, content, rfl, hinside⟩ := elementChars_inv hdeclared hnames hread
  obtain ⟨⟨bound, hbound, -, inside, hresolved⟩, -⟩ := resolve_element_inv hresolve
  rw [bindings_tagAttributes hdeclared hnames] at hbound
  cases hbound
  obtain ⟨after, hcontent⟩ := hinside (by simp [hchildren])
  exact h _ content after hcontent inside hresolved

end Cuesheet.Xml
