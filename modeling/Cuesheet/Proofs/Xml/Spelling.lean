import Cuesheet.Proofs.Document.Around
import Cuesheet.Proofs.Xml.Tags

/-!
# Elements, written and read

What is written for a tree whose names are legible is read as the same tree, except for its keys
and for the line ends in its texts (`readsElement_normalized`). Text is read in pieces, so reading
is followed up to the resolving of prefixes, which joins them (`ReadsContent`).
-/

namespace Cuesheet.Xml

/-! ## Trees as they are read back -/

namespace Node

mutual

/-- The tree without keys and with normalized line ends. -/
def normalized : Node → Node
  | ⟨_, name, attributes, text, children, tail⟩ =>
    ⟨0, name, attributes, normalizeLines text, normalizedAll children, normalizeLines tail⟩

def normalizedAll : List Node → List Node
  | [] => []
  | node :: rest => node.normalized :: normalizedAll rest

end

theorem normalizedAll_eq (nodes : List Node) : normalizedAll nodes = nodes.map normalized := by
  induction nodes with
  | nil => rfl
  | cons node rest ih => rw [normalizedAll, ih, List.map_cons]

theorem normalized_eq (node : Node) :
    node.normalized = ⟨0, node.name, node.attributes, normalizeLines node.text,
      node.children.map normalized, normalizeLines node.tail⟩ := by
  rw [← normalizedAll_eq]
  cases node
  rw [normalized]

theorem eta_of_key (node : Node) (h : node.key = 0) :
    (⟨0, node.name, node.attributes, node.text, node.children, node.tail⟩ : Node) = node := by
  cases node
  cases h
  rfl

end Node

/-! ## What is written for a node -/

theorem nodesChars_eq (written : String → String) (nodes : List Node) :
    nodesChars written nodes = nodes.flatMap (nodeChars written []) := by
  induction nodes with
  | nil => rfl
  | cons node rest ih => rw [nodesChars, ih, List.flatMap_cons]

/-- What stands between the opening and the closing tag of a node. -/
def insideChars (written : String → String) (node : Node) : List Char :=
  node.text.flatMap textChar ++ node.children.flatMap (nodeChars written [])

/-- What is written for a node, without the opening bracket and the text that follows it. -/
def elementChars (written : String → String) (declarations : List (String × String))
    (node : Node) : List Char :=
  (written node.name).toList ++
    ((tagAttributes written declarations node.attributes).flatMap
      (fun pair => attributeChars pair.1 pair.2) ++
    if node.text.isEmpty && node.children.isEmpty then [' ', '/', '>']
    else '>' :: (insideChars written node ++ '<' :: '/' :: ((written node.name).toList ++ ['>'])))

variable {written : String → String} {declarations : List (String × String)} {node : Node}

theorem elementChars_of_empty (h : (node.text.isEmpty && node.children.isEmpty) = true)
    (rest : List Char) :
    elementChars written declarations node ++ rest = (written node.name).toList ++
      ((tagAttributes written declarations node.attributes).flatMap
        (fun pair => attributeChars pair.1 pair.2) ++ ' ' :: '/' :: '>' :: rest) := by
  simp only [elementChars, h, if_true, List.append_assoc, List.cons_append, List.nil_append]

theorem elementChars_of_inside (h : (node.text.isEmpty && node.children.isEmpty) = false)
    (rest : List Char) :
    elementChars written declarations node ++ rest = (written node.name).toList ++
      ((tagAttributes written declarations node.attributes).flatMap
        (fun pair => attributeChars pair.1 pair.2) ++
          '>' :: (insideChars written node ++
            '<' :: '/' :: ((written node.name).toList ++ '>' :: rest))) := by
  simp only [elementChars, h, Bool.false_eq_true, if_false, List.append_assoc, List.cons_append,
    List.nil_append]

theorem nodeChars_eq (written : String → String) (declarations : List (String × String))
    (node : Node) :
    nodeChars written declarations node =
      '<' :: elementChars written declarations node ++ node.tail.flatMap textChar := by
  cases node
  simp only [nodeChars, elementChars, insideChars, tagAttributes, nodesChars_eq, declarationName,
    List.flatMap_append, List.flatMap_map]
  split <;> simp

/-! ## Content -/

variable {scope : Scope} {cs rest : List Char} {lead : List Char} {nodes : List Node}

/-- Content in front of a rest is read as a text and the nodes after it. -/
def ReadsContent (scope : Scope) (cs rest lead : List Char) (nodes : List Node) : Prop :=
  ∃ items h, Item.readContent {} [] cs = .ok (items, ⟨rest, h⟩) ∧
    resolve scope items = .ok ⟨lead, nodes, []⟩

theorem readsContent_close (scope : Scope) (rest : List Char) :
    ReadsContent scope ('<' :: '/' :: rest) ('<' :: '/' :: rest) [] [] :=
  ⟨[], Nat.le_refl _, by rw [Item.readContent], by rw [resolve]⟩

theorem mem_of_until?_isSome {mark : List Char} {cs : List Char}
    (h : (until? mark cs).isSome = true) {c : Char} (hc : c ∈ mark) : c ∈ cs := by
  induction cs with
  | nil =>
      rw [until?_nil] at h
      split at h
      · rename_i hmark
        rw [List.isEmpty_iff.mp hmark] at hc
        cases hc
      · cases h
  | cons d rest ih =>
      rcases until?_cons_cases mark d rest with ⟨hhere, -⟩ | ⟨-, -, hnone⟩ |
        ⟨-, before, after, hle, hle', hrest, -⟩
      · exact hhere.subset hc
      · rw [hnone] at h
        cases h
      · exact List.mem_cons_of_mem _ (ih (by rw [hrest]; rfl))

/-- A text is plain up to a character that is written by reference. -/
theorem exists_plain_front (text : List Char) : ∃ front back, text = front ++ back ∧
    (∀ d ∈ front, d ≠ '&' ∧ d ≠ '<' ∧ d ≠ '>') ∧
    ∀ c, back.head? = some c → IsReferenceTo c (textChar c) := by
  induction text with
  | nil => exact ⟨[], [], rfl, nofun, nofun⟩
  | cons c rest ih =>
      rcases textChar_cases c with href | ⟨-, hc⟩
      · refine ⟨[], c :: rest, rfl, nofun, ?_⟩
        rintro d ⟨⟩
        exact href
      · obtain ⟨front, back, rfl, hfront, hback⟩ := ih
        exact ⟨c :: front, back, rfl, List.forall_mem_cons.mpr ⟨hc, hfront⟩, hback⟩

theorem flatMap_textChar_of_plain {front : List Char}
    (h : ∀ d ∈ front, d ≠ '&' ∧ d ≠ '<' ∧ d ≠ '>') : front.flatMap textChar = front := by
  induction front with
  | nil => rfl
  | cons c rest ih =>
      obtain ⟨⟨hamp, hlt, hgt⟩, hrest⟩ := List.forall_mem_cons.mp h
      rw [List.flatMap_cons, textChar_of_ne hamp hlt hgt, ih hrest, List.singleton_append]

/-- What content begins with is read as some texts, and then the content as it would be alone. -/
structure ReadsFirst (front : List Char) (texts : List (List Char)) (cs : List Char) : Prop where
  ok : ∀ {items rest h}, Item.readContent {} [] cs = .ok (items, ⟨rest, h⟩) →
    ∃ h, Item.readContent {} [] (front ++ cs) = .ok (texts.map .text ++ items, ⟨rest, h⟩)
  error : ∀ {fault}, Item.readContent {} [] cs = .error fault →
    Item.readContent {} [] (front ++ cs) = .error fault

theorem ReadsFirst.nil (cs : List Char) : ReadsFirst [] [] cs := ⟨fun h => ⟨_, h⟩, id⟩

theorem ReadsFirst.append {front front' : List Char} {texts texts' : List (List Char)}
    (h : ReadsFirst front texts (front' ++ cs)) (h' : ReadsFirst front' texts' cs) :
    ReadsFirst (front ++ front') (texts ++ texts') cs := by
  refine ⟨fun hread => ?_, fun hread => ?_⟩
  · obtain ⟨_, hread'⟩ := h'.ok hread
    obtain ⟨hle, hall⟩ := h.ok hread'
    rw [List.map_append, List.append_assoc, List.append_assoc]
    exact ⟨hle, hall⟩
  · rw [List.append_assoc]
    exact h.error (h'.error hread)

/-- A plain run is a piece of text, up to the next reference or tag. -/
theorem readsFirst_run {c : Char} {front : List Char}
    (hfront : ∀ d ∈ c :: front, d ≠ '&' ∧ d ≠ '<' ∧ d ≠ '>')
    (hcs : ∀ d, cs.head? = some d → d = '<' ∨ d = '&') :
    ReadsFirst (c :: front) [c :: front] cs := by
  obtain ⟨⟨hamp, hlt, hgt⟩, hmore⟩ := List.forall_mem_cons.mp hfront
  have hplain : ∀ d ∈ front, (d != '<' && d != '&') = true := by
    intro d hd
    simp [(hmore d hd).1, (hmore d hd).2.1]
  have hends : ∀ d, cs.head? = some d → (d != '<' && d != '&') = false := by
    intro d hd
    rcases hcs d hd with rfl | rfl <;> rfl
  have hrun : Item.plainRun (front ++ cs) = front := (takeWhile_append_of_all hplain hends).1
  have hdrop : (front ++ cs).drop (Item.plainRun (front ++ cs)).length = cs := by
    rw [hrun, List.drop_left]
  have hsection : Item.holdsSectionEnd (c :: front) = false := by
    rw [← Bool.not_eq_true]
    intro hend
    exact (hfront '>' (mem_of_until?_isSome hend (by simp))).2.2 rfl
  constructor
  · intro items rest h hread
    obtain ⟨hle', hread'⟩ : ∃ h, Item.readContent {} []
        ((front ++ cs).drop (Item.plainRun (front ++ cs)).length) = .ok (items, ⟨rest, h⟩) := by
      rw [hdrop]
      exact ⟨h, hread⟩
    have hrest : rest.length ≤ (c :: (front ++ cs)).length := by
      simp only [List.length_cons, List.length_append]
      omega
    rw [List.cons_append]
    refine ⟨hrest, ?_⟩
    rw [Item.readContent] <;> try (intros; exact absurd ‹_› hlt)
    · rw [hread']
      simp only [hrun, hsection]
      rfl
    · exact hamp
  · intro fault hread
    rw [← hdrop] at hread
    rw [List.cons_append, Item.readContent] <;> try (intros; exact absurd ‹_› hlt)
    · rw [hread]
      simp only [hrun, hsection]
      rfl
    · exact hamp

/-- A reference is a piece of text. -/
theorem readsFirst_reference {c : Char} (h : IsReferenceTo c (textChar c)) (cs : List Char) :
    ReadsFirst (textChar c) [[c]] cs := by
  obtain ⟨after, hle, hchars, href⟩ := h.reads cs
  constructor
  · intro items rest h hread
    have hrest : rest.length ≤ ('&' :: after).length := by
      simp only [List.length_cons]
      omega
    rw [hchars]
    refine ⟨hrest, ?_⟩
    rw [Item.readContent, href]
    dsimp only
    rw [hread]
    rfl
  · intro fault hread
    rw [hchars, Item.readContent, href]
    dsimp only
    rw [hread]

/-- A text in front of content is read in pieces. -/
theorem readsFirst_text (text : List Char) (hcs : cs.head? = some '<') :
    ∃ texts, texts.flatten = text ∧ ReadsFirst (text.flatMap textChar) texts cs := by
  induction hlength : text.length using Nat.strongRecOn generalizing text with
  | ind n ih =>
    obtain ⟨front, back, rfl, hfront, hback⟩ := exists_plain_front text
    have hspelled := flatMap_textChar_of_plain hfront
    -- what is left after the plain front begins with a reference or is all read
    have hrest : (∃ texts, texts.flatten = back ∧ ReadsFirst (back.flatMap textChar) texts cs) ∧
        ∀ d, (back.flatMap textChar ++ cs).head? = some d → d = '<' ∨ d = '&' := by
      cases back with
      | nil =>
          refine ⟨⟨[], rfl, .nil cs⟩, fun d hd => .inl ?_⟩
          exact Option.some.inj (hd.symm.trans hcs)
      | cons c more =>
          obtain ⟨texts, hjoin, hread⟩ := ih more.length
            (by rw [← hlength, List.length_append, List.length_cons]; omega) more rfl
          obtain ⟨after, -, hchars, -⟩ := (hback c rfl).reads (more.flatMap textChar ++ cs)
          rw [List.flatMap_cons]
          refine ⟨⟨[c] :: texts, by simp [hjoin], ?_⟩, fun d hd => .inr ?_⟩
          · exact (readsFirst_reference (hback c rfl) _).append hread
          · rw [List.append_assoc, hchars] at hd
            exact (Option.some.inj hd).symm
    obtain ⟨⟨texts, rfl, hread⟩, hhead⟩ := hrest
    cases front with
    | nil => exact ⟨texts, rfl, hread⟩
    | cons c front =>
        refine ⟨(c :: front) :: texts, rfl, ?_⟩
        rw [List.flatMap_append, hspelled]
        exact (readsFirst_run hfront hhead).append hread

theorem resolve_texts (texts : List (List Char)) {items : List Item}
    {bound : List (String × String)} (h : resolve scope items = .ok ⟨lead, nodes, bound⟩) :
    resolve scope (texts.map .text ++ items) = .ok ⟨texts.flatten ++ lead, nodes, bound⟩ := by
  induction texts with
  | nil => exact h
  | cons text more ih =>
      rw [List.map_cons, List.cons_append, resolve, ih, List.flatten_cons, List.append_assoc]

/-- A text in front of content joins the text that the content begins with. -/
theorem readsContent_text (text : List Char) (hcs : cs.head? = some '<')
    (h : ReadsContent scope cs rest lead nodes) :
    ReadsContent scope (text.flatMap textChar ++ cs) rest (text ++ lead) nodes := by
  obtain ⟨items, hle, hread, hresolve⟩ := h
  obtain ⟨texts, rfl, hfirst⟩ := readsFirst_text text hcs
  obtain ⟨hle', hall⟩ := hfirst.ok hread
  exact ⟨_, hle', hall, resolve_texts _ hresolve⟩

/-! ## Elements -/

theorem after?_append (mark rest : List Char) :
    ∃ hle : rest.length ≤ (mark ++ rest).length,
      after? mark (mark ++ rest) = some ⟨rest, hle⟩ := by
  refine ⟨by simp, ?_⟩
  simp [after?]

theorem endsName_attributes (pairs : List (String × String)) {ending : List Char}
    (h : EndsName ending) :
    EndsName (pairs.flatMap (fun pair => attributeChars pair.1 pair.2) ++ ending) := by
  cases pairs with
  | nil => exact h
  | cons pair more => exact endsName_cons (isNameChar_mark (by decide)) (by decide)

/-- What is written for a node is read as the node, and as nothing else. -/
def ReadsElement (written : String → String) (declarations : List (String × String))
    (outer : Scope) (node : Node) : Prop :=
  ∀ rest, ∃ item h,
    Item.readElement {} [] (elementChars written declarations node ++ rest) =
      .ok (item, ⟨rest, h⟩) ∧
    ∀ items after, resolve outer items = .ok after →
      resolve outer (item :: items) = .ok
        ⟨[], ⟨0, node.name, node.attributes, node.text, node.children, after.lead⟩ :: after.nodes,
          declarations ++ after.bindings⟩

theorem resolve_nil (scope : Scope) : resolve scope [] = .ok ⟨[], [], []⟩ := by
  rw [resolve]

/-- An element resolves to a node, within what it binds itself. -/
theorem resolve_cons {name : List Char} {pairs : List (String × String)} {content : List Item}
    {items : List Item} {bound : List (String × String)} {expanded : String}
    {attributes : List (String × String)} {inside after : Resolved}
    (hbound : Scope.bindings pairs = .ok bound)
    (hname : Scope.elementName (bound.reverse ++ scope) (String.ofList name) = .ok expanded)
    (hattributes : Scope.attributes (bound.reverse ++ scope) pairs = .ok attributes)
    (hinside : resolve (bound.reverse ++ scope) content = .ok inside)
    (hafter : resolve scope items = .ok after) :
    resolve scope (.element name pairs content :: items) = .ok
      ⟨[], ⟨0, expanded, attributes, inside.lead, inside.nodes, after.lead⟩ :: after.nodes,
        bound ++ inside.bindings ++ after.bindings⟩ := by
  rw [resolve, hbound]
  dsimp only
  rw [hname, hattributes]
  dsimp only
  rw [hinside, hafter]

/-- A tag with the attributes that are written for a node resolves to the node. -/
theorem resolve_element (hdeclared : Declarable declarations)
    (hlegible : Legible written (declarations.reverse ++ scope) node) {content : List Item}
    (hcontent : resolve (declarations.reverse ++ scope) content =
      .ok ⟨node.text, node.children, []⟩) {items : List Item} {after : Resolved}
    (hafter : resolve scope items = .ok after) :
    resolve scope (.element (written node.name).toList
        (tagAttributes written declarations node.attributes) content :: items) = .ok
      ⟨[], ⟨0, node.name, node.attributes, node.text, node.children, after.lead⟩ :: after.nodes,
        declarations ++ after.bindings⟩ := by
  have hname : Scope.elementName (declarations.reverse ++ scope)
      (String.ofList (written node.name).toList) = .ok node.name := by
    rw [String.ofList_toList, hlegible.meansName]
  rw [resolve_cons (bindings_tagAttributes hdeclared hlegible.inscribed) hname
    (attributes_tagAttributes hdeclared hlegible) hcontent hafter, List.append_nil]

/-- An opening tag is read up to its end. -/
theorem readElement_tag {name : List Char} {pairs : List (String × String)}
    (hname : IsQualified name) (hpairs : ∀ pair ∈ pairs, IsQualified pair.1.toList)
    (hnodup : (pairs.map (·.1)).Nodup) {ending rest : List Char} {tagEnd : Item.TagEnd}
    (hends : EndsName ending) (hending : Item.EndsTag ending tagEnd rest) :
    ∃ cs', Reads (qualifiedName (name ++
        (pairs.flatMap (fun pair => attributeChars pair.1 pair.2) ++ ending))) name cs' ∧
      ∃ hle, Item.readAttributes {} [] cs' = .ok (pairs, tagEnd, ⟨rest, hle⟩) :=
  ⟨_, reads_qualifiedName hname (endsName_attributes pairs hends),
    Item.readAttributes_written hpairs hnodup hending⟩

theorem readElement_empty {cs name cs' rest : List Char} {given : List (String × String)}
    (hname : Reads (qualifiedName cs) name cs')
    (hattributes : ∃ hle, Item.readAttributes {} [] cs' = .ok (given, .empty, ⟨rest, hle⟩)) :
    Reads (Item.readElement {} [] cs) (.element name given []) rest := by
  obtain ⟨hlt, hname⟩ := hname
  obtain ⟨hle, hattributes⟩ := hattributes
  refine ⟨Nat.lt_of_le_of_lt hle hlt, ?_⟩
  rw [Item.readElement, hname]
  simp [hattributes, Item.withDefaults_nil]

theorem readElement_opened {cs name cs' inside rest : List Char}
    {given : List (String × String)} {items : List Item}
    (hname : Reads (qualifiedName cs) name cs')
    (hattributes : ∃ hle, Item.readAttributes {} [] cs' = .ok (given, .opened, ⟨inside, hle⟩))
    (hcontent : ∃ hle, Item.readContent {} [] inside =
      .ok (items, ⟨'<' :: '/' :: (name ++ '>' :: rest), hle⟩)) :
    Reads (Item.readElement {} [] cs) (.element name given items) rest := by
  obtain ⟨hlt, hname⟩ := hname
  obtain ⟨hle, hattributes⟩ := hattributes
  obtain ⟨hle', hcontent⟩ := hcontent
  obtain ⟨hclose, hopening⟩ := after?_append ['<', '/'] (name ++ '>' :: rest)
  obtain ⟨hlabel, hclosing⟩ := after?_append name ('>' :: rest)
  have hbracket : afterChar? '>' (skipSpace ('>' :: rest)).1 =
      some ⟨rest, Nat.lt_succ_self _⟩ := rfl
  have hrest : rest.length < cs.length := by
    simp only [List.length_cons, List.length_append] at hle'
    omega
  refine ⟨hrest, ?_⟩
  rw [Item.readElement, hname]
  simp only [Entries.value?_nil, Option.getD_none]
  rw [hattributes]
  dsimp only
  rw [hcontent]
  dsimp only
  simp only [List.cons_append, List.nil_append] at hopening
  rw [hopening]
  dsimp only
  rw [hclosing]
  dsimp only
  rw [hbracket]
  simp [Item.withDefaults_nil]

/-- An element that is read has the name and the attributes that are, and what stands in it. -/
theorem readElement_split {cs name behind rest : List Char} {item : Item}
    (hname : Reads (qualifiedName cs) name behind)
    (h : Reads (Item.readElement {} [] cs) item rest) :
    ∃ pairs tagEnd inside content, Item.readAttributes {} [] behind = .ok (pairs, tagEnd, inside) ∧
      item = .element name pairs content ∧
      (tagEnd = .opened → ∃ after, Item.readContent {} [] inside.1 = .ok (content, after)) := by
  obtain ⟨hlt, hname⟩ := hname
  obtain ⟨hlt', h⟩ := h
  rw [Item.readElement, hname] at h
  simp only [Entries.value?_nil, Option.getD_none, Item.withDefaults_nil] at h
  split at h
  · cases h
  · rename_i given inside hle hattributes
    cases h
    refine ⟨given, .empty, _, [], hattributes, rfl, fun hopened => ?_⟩
    cases hopened
  · rename_i given inside hle hattributes
    split at h
    · cases h
    · rename_i items after hle' hcontent
      repeat' split at h
      all_goals cases h
      exact ⟨given, .opened, _, items, hattributes, rfl, fun _ => ⟨_, hcontent⟩⟩

/-- An element is read if what stands inside it is. -/
theorem readsElement_of_inside (hdeclared : Declarable declarations)
    (hlegible : Legible written (declarations.reverse ++ scope) node)
    (hinside : ∀ rest, ReadsContent (declarations.reverse ++ scope)
      (insideChars written node ++ '<' :: '/' :: rest) ('<' :: '/' :: rest)
      node.text node.children) :
    ReadsElement written declarations scope node := by
  intro rest
  have hpairs : ∀ pair ∈ tagAttributes written declarations node.attributes,
      IsQualified pair.1.toList := fun _ => isQualified_tagAttributes hdeclared hlegible
  have hnodup := nodup_tagAttributes hdeclared hlegible
  cases hempty : (node.text.isEmpty && node.children.isEmpty) with
  | true =>
      -- an empty tag, so there is nothing inside
      obtain ⟨htext, hchildren⟩ : node.text = [] ∧ node.children = [] := by
        simpa using hempty
      have hcontent : resolve (declarations.reverse ++ scope) [] =
          .ok ⟨node.text, node.children, []⟩ := by rw [resolve_nil, htext, hchildren]
      obtain ⟨cs', hname, hattributes⟩ := readElement_tag hlegible.name hpairs hnodup
        (endsName_cons (isNameChar_mark (by decide)) (by decide)) (Item.endsTag_empty rest)
      obtain ⟨hlt, hread⟩ := readElement_empty hname hattributes
      rw [elementChars_of_empty hempty]
      exact ⟨_, hlt, hread, fun items after hafter =>
        resolve_element hdeclared hlegible hcontent hafter⟩
  | false =>
      obtain ⟨items, hle, hcontent, hresolve⟩ :=
        hinside ((written node.name).toList ++ '>' :: rest)
      obtain ⟨cs', hname, hattributes⟩ := readElement_tag hlegible.name hpairs hnodup
        (endsName_cons (isNameChar_mark (by decide)) (by decide)) (Item.endsTag_opened _)
      obtain ⟨hlt, hread⟩ := readElement_opened hname hattributes ⟨hle, hcontent⟩
      rw [elementChars_of_inside hempty]
      exact ⟨_, hlt, hread, fun items after hafter =>
        resolve_element hdeclared hlegible hresolve hafter⟩

/-! ## Trees -/

theorem readContent_element {entities : Entities} {rules : Entries String (List AttributeRule)}
    {cs mid rest : List Char} {item : Item} {items : List Item}
    (hstart : ∃ c tail, cs = c :: tail ∧ isNameStart c = true)
    (hitem : Reads (Item.readElement entities rules cs) item mid)
    (hitems : ∃ hle, Item.readContent entities rules mid = .ok (items, ⟨rest, hle⟩)) :
    ∃ hle, Item.readContent entities rules ('<' :: cs) = .ok (item :: items, ⟨rest, hle⟩) := by
  obtain ⟨c, tail, rfl, hstart⟩ := hstart
  obtain ⟨hlt, hitem⟩ := hitem
  obtain ⟨hle, hitems⟩ := hitems
  have hmark : ∀ d, isNameStart d = false → ∀ more, c :: tail = d :: more → False :=
    fun d hd more heq => ne_of_isNameStart hstart hd (List.cons.inj heq).1
  have hrest : rest.length ≤ ('<' :: c :: tail).length :=
    Nat.le_trans hle (Nat.le_of_lt (Nat.lt_succ_of_lt hlt))
  refine ⟨hrest, ?_⟩
  rw [Item.readContent, hitem]
  · dsimp only
    rw [hitems]
  · exact hmark '/' (isNameStart_mark (by decide))
  · exact fun more => hmark '!' (isNameStart_mark (by decide)) _
  · exact hmark '!' (isNameStart_mark (by decide))
  · exact hmark '?' (isNameStart_mark (by decide))

theorem exists_cons_elementChars (declarations : List (String × String))
    (h : IsQualified (written node.name).toList) (rest : List Char) :
    ∃ c tail, elementChars written declarations node ++ rest = c :: tail ∧
      isNameStart c = true := by
  obtain ⟨c, front, hname, hstart⟩ := h.exists_cons
  exact ⟨c, _, by rw [elementChars, hname, List.append_assoc, List.cons_append], hstart⟩

/-- Inside an element a tag follows every text. -/
theorem head?_nodes_close (written : String → String) (nodes : List Node) (rest : List Char) :
    (nodes.flatMap (nodeChars written []) ++ '<' :: '/' :: rest).head? = some '<' := by
  cases nodes with
  | nil => rfl
  | cons node more =>
      rw [List.flatMap_cons, nodeChars_eq]
      rfl

/-- Nodes in a row are read one after the other, each with the text that follows it. -/
theorem readsContent_nodes (hlegible : ∀ node ∈ nodes, Legible written scope node)
    (hkeys : ∀ node ∈ nodes, node.key = 0)
    (hread : ∀ node ∈ nodes, ReadsElement written [] scope node) (rest : List Char) :
    ReadsContent scope (nodes.flatMap (nodeChars written []) ++ '<' :: '/' :: rest)
      ('<' :: '/' :: rest) [] nodes := by
  induction nodes with
  | nil => exact readsContent_close scope rest
  | cons node more ih =>
      obtain ⟨hown, hlegible⟩ := List.forall_mem_cons.mp hlegible
      obtain ⟨hkey, hkeys⟩ := List.forall_mem_cons.mp hkeys
      obtain ⟨helement, hread⟩ := List.forall_mem_cons.mp hread
      obtain ⟨items, hle, hcontent, hresolve⟩ :=
        readsContent_text node.tail (head?_nodes_close written more rest) (ih hlegible hkeys hread)
      obtain ⟨item, hlt, hitem, hjoin⟩ := helement (node.tail.flatMap textChar ++
        (more.flatMap (nodeChars written []) ++ '<' :: '/' :: rest))
      obtain ⟨hle', hall⟩ := readContent_element (exists_cons_elementChars [] hown.name _)
        ⟨hlt, hitem⟩ ⟨hle, hcontent⟩
      rw [List.flatMap_cons, nodeChars_eq]
      simp only [List.append_assoc, List.cons_append]
      refine ⟨item :: items, hle', hall, ?_⟩
      rw [hjoin items _ hresolve, List.append_nil, List.append_nil, node.eta_of_key hkey]

theorem Legible.of_normalized (h : Legible written scope node) :
    Legible written scope node.normalized := by
  rw [Node.normalized_eq]
  exact ⟨h.name, h.meansName, h.keys, h.unbinding, h.meansKeys, h.nodup⟩

/-- The inside of a node is read if its children are. -/
theorem readsContent_inside
    (hlegible : ∀ child ∈ node.children, Legible written scope child)
    (hread : ∀ child ∈ node.children, ReadsElement written [] scope child.normalized)
    (rest : List Char) :
    ReadsContent scope (insideChars written node.normalized ++ '<' :: '/' :: rest)
      ('<' :: '/' :: rest) node.normalized.text node.normalized.children := by
  have hchildren : node.normalized.children = node.children.map Node.normalized := by
    rw [Node.normalized_eq]
  have hnormalized : ∀ child ∈ node.normalized.children, Legible written scope child := by
    rw [hchildren]
    intro child hchild
    obtain ⟨original, horiginal, rfl⟩ := List.mem_map.mp hchild
    exact (hlegible original horiginal).of_normalized
  have hnodes := readsContent_nodes hnormalized (by simp [Node.normalized_eq])
    (by simpa [hchildren] using hread) rest
  have htext := readsContent_text node.normalized.text (head?_nodes_close written _ rest) hnodes
  rwa [List.append_nil, ← List.append_assoc] at htext

/-- A tree whose names are legible is read as it is written, but for keys and line ends. -/
theorem readsElement_normalized (node : Node)
    (h : ∀ n, node.Encloses n → Legible written scope n) :
    ReadsElement written [] scope node.normalized := by
  induction node using Node.children_induction with
  | step node ih =>
      have hown : Legible written (List.reverse [] ++ scope) node.normalized :=
        (h node (.self node)).of_normalized
      have hchildren : ∀ child ∈ node.children, ∀ n, child.Encloses n → Legible written scope n :=
        fun child hchild n hn => h n (.child hchild hn)
      refine readsElement_of_inside .nil hown ?_
      exact readsContent_inside (fun child hchild => hchildren child hchild child (.self child))
        fun child hchild => ih child hchild (hchildren child hchild)

/-- So is a root with the declarations that bind its prefixes. -/
theorem readsElement_root (hdeclared : Declarable declarations) (root : Node)
    (h : ∀ n, root.Encloses n → Legible written (declarations.reverse ++ scope) n) :
    ReadsElement written declarations scope root.normalized := by
  have hown := (h root (.self root)).of_normalized
  have hchildren : ∀ child ∈ root.children, ∀ n, child.Encloses n →
      Legible written (declarations.reverse ++ scope) n :=
    fun child hchild n hn => h n (.child hchild hn)
  refine readsElement_of_inside hdeclared hown ?_
  exact readsContent_inside (fun child hchild => hchildren child hchild child (.self child))
    fun child hchild => readsElement_normalized child (hchildren child hchild)

end Cuesheet.Xml
