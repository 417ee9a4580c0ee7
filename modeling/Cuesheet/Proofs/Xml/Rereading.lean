import Cuesheet.Proofs.Xml.Spelling
import Cuesheet.Markup.Element

/-!
# Written documents, read back

A written tree whose names are legible is read as the same tree with its line ends normalized, and
with the declarations of its root as its bindings (`ofMarkup_written`), unless it holds a character
that may not stand in a document (`ofMarkup_illegal`).
-/

namespace Cuesheet.Xml

variable {written : String → String} {declarations : List (String × String)} {scope : Scope}
  {node root : Node}

/-! ## Line ends -/

theorem Whole.return_notMem {cs : List Char} (h : Whole cs) : '\r' ∉ cs := h _ (by decide)

theorem return_notMem_attributeChars {name : String} (h : Whole name.toList) (value : String) :
    '\r' ∉ attributeChars name value := by
  have hvalue : '\r' ∉ value.toList.flatMap valueChar := by
    intro hmem
    obtain ⟨c, -, hmem⟩ := List.mem_flatMap.mp hmem
    by_cases hreturn : c = '\r'
    · subst hreturn
      revert hmem
      decide
    · unfold valueChar textChar at hmem
      split_ifs at hmem <;> simp at hmem
      exact hreturn hmem.symm
  simp [attributeChars, h.return_notMem, hvalue]

theorem return_notMem_tag (hdeclared : Declarable declarations) (h : Inscribed written node) :
    '\r' ∉ (tagAttributes written declarations node.attributes).flatMap
      fun pair => attributeChars pair.1 pair.2 := by
  intro hmem
  obtain ⟨pair, hpair, hmem⟩ := List.mem_flatMap.mp hmem
  exact return_notMem_attributeChars (whole_tagAttributes hdeclared h hpair) _ hmem

theorem head?_nodes {nodes : List Node} {rest : List Char} (h : rest.head? ≠ some '\n') :
    (nodes.flatMap (nodeChars written []) ++ rest).head? ≠ some '\n' := by
  cases nodes with
  | nil => exact h
  | cons node more =>
      rw [List.flatMap_cons, nodeChars_eq]
      simp

/-- Line ends inside an element are normalized as those of its texts. -/
theorem normalizeLines_element (hdeclared : Declarable declarations)
    (h : Inscribed written node)
    (hchildren : ∀ rest : List Char, rest.head? ≠ some '\n' →
      normalizeLines (node.children.flatMap (nodeChars written []) ++ rest) =
        node.normalized.children.flatMap (nodeChars written []) ++ normalizeLines rest)
    (rest : List Char) :
    normalizeLines (elementChars written declarations node ++ rest) =
      elementChars written declarations node.normalized ++ normalizeLines rest := by
  have hname := h.name.whole.return_notMem
  have htag := return_notMem_tag hdeclared h
  have hsame : node.normalized.name = node.name ∧ node.normalized.attributes = node.attributes ∧
      node.normalized.text = normalizeLines node.text ∧
      node.normalized.children.isEmpty = node.children.isEmpty := by
    simp [Node.normalized_eq]
  obtain ⟨hsameName, hsameAttributes, hsameText, hsameChildren⟩ := hsame
  have hsameEmpty : (node.normalized.text.isEmpty && node.normalized.children.isEmpty) =
      (node.text.isEmpty && node.children.isEmpty) := by
    rw [hsameText, hsameChildren, isEmpty_normalizeLines]
  cases hempty : (node.text.isEmpty && node.children.isEmpty) with
  | true =>
      rw [hempty] at hsameEmpty
      rw [elementChars_of_empty hempty, elementChars_of_empty hsameEmpty, hsameName,
        hsameAttributes, normalizeLines_append_of_notMem hname,
        normalizeLines_append_of_notMem htag]
      rfl
  | false =>
      rw [hempty] at hsameEmpty
      have hclosing : normalizeLines ('<' :: '/' :: ((written node.name).toList ++ '>' :: rest)) =
          '<' :: '/' :: ((written node.name).toList ++ '>' :: normalizeLines rest) := by
        rw [normalizeLines_cons (by decide), normalizeLines_cons (by decide),
          normalizeLines_append_of_notMem hname, normalizeLines_cons (by decide)]
      rw [elementChars_of_inside hempty, elementChars_of_inside hsameEmpty, hsameName,
        hsameAttributes, normalizeLines_append_of_notMem hname,
        normalizeLines_append_of_notMem htag, normalizeLines_cons (by decide), insideChars,
        List.append_assoc, normalizeLines_written _ (head?_nodes (by simp)),
        hchildren _ (by simp), hclosing, insideChars, hsameText, List.append_assoc]

theorem normalizeLines_nodes {nodes : List Node}
    (h : ∀ node ∈ nodes, ∀ rest, normalizeLines (elementChars written [] node ++ rest) =
      elementChars written [] node.normalized ++ normalizeLines rest)
    {rest : List Char} (hrest : rest.head? ≠ some '\n') :
    normalizeLines (nodes.flatMap (nodeChars written []) ++ rest) =
      (nodes.map Node.normalized).flatMap (nodeChars written []) ++ normalizeLines rest := by
  induction nodes with
  | nil => rfl
  | cons node more ih =>
      obtain ⟨hnode, hmore⟩ := List.forall_mem_cons.mp h
      have htail : node.normalized.tail = normalizeLines node.tail := by
        rw [Node.normalized_eq]
      rw [List.flatMap_cons, List.map_cons, List.flatMap_cons, nodeChars_eq, nodeChars_eq, htail]
      simp only [List.append_assoc, List.cons_append]
      rw [normalizeLines_cons (by decide), hnode, normalizeLines_written _ (head?_nodes hrest),
        ih hmore]

theorem normalizeLines_subtree (node : Node)
    (h : ∀ n, node.Encloses n → Inscribed written n) (rest : List Char) :
    normalizeLines (elementChars written [] node ++ rest) =
      elementChars written [] node.normalized ++ normalizeLines rest := by
  induction node using Node.children_induction generalizing rest with
  | step node ih =>
      refine normalizeLines_element .nil (h node (.self node)) ?_ rest
      intro rest hrest
      have hchildren : node.normalized.children = node.children.map Node.normalized := by
        rw [Node.normalized_eq]
      rw [hchildren]
      exact normalizeLines_nodes
        (fun child hchild rest => ih child hchild (fun n hn => h n (.child hchild hn)) rest) hrest

theorem normalizeLines_root (hdeclared : Declarable declarations) (root : Node)
    (h : ∀ n, root.Encloses n → Inscribed written n) :
    normalizeLines (elementChars written declarations root) =
      elementChars written declarations root.normalized := by
  have hroot := normalizeLines_element hdeclared (h root (.self root)) (fun rest hrest => ?_) []
  · rwa [List.append_nil, normalizeLines, List.append_nil] at hroot
  · have hchildren : root.normalized.children = root.children.map Node.normalized := by
      rw [Node.normalized_eq]
    rw [hchildren]
    exact normalizeLines_nodes (fun child hchild rest =>
      normalizeLines_subtree child (fun n hn => h n (.child hchild hn)) rest) hrest

/-! ## Characters that may stand in a document -/

/-- All that a node says may stand in a document. -/
structure Node.Legal (node : Node) : Prop where
  text : AllLegal node.text
  tail : AllLegal node.tail
  values : ∀ entry ∈ node.attributes, AllLegal entry.2.toList

theorem allLegal_attributeChars_iff {name : String} (h : IsQualified name.toList)
    {value : String} : AllLegal (attributeChars name value) ↔ AllLegal value.toList := by
  have hblank : isLegal ' ' = true := by decide
  have hequals : isLegal '=' = true := by decide
  have hquote : isLegal '"' = true := by decide
  simp [attributeChars, allLegal_append, allLegal_cons, allLegal_nil, hblank, hequals, hquote,
    h.allLegal, allLegal_flatMap_iff fun _ => allLegal_valueChar_iff]

theorem allLegal_tag_iff (hdeclared : Declarable declarations)
    (huris : ∀ entry ∈ declarations, AllLegal entry.2.toList)
    (hlegible : Legible written scope node) :
    AllLegal ((tagAttributes written declarations node.attributes).flatMap
        fun pair => attributeChars pair.1 pair.2) ↔
      ∀ entry ∈ node.attributes, AllLegal entry.2.toList := by
  have hnames : ∀ pair ∈ tagAttributes written declarations node.attributes,
      IsQualified pair.1.toList := fun _ => isQualified_tagAttributes hdeclared hlegible
  constructor
  · intro h entry hentry
    have hpair : (written entry.1, entry.2) ∈
        tagAttributes written declarations node.attributes :=
      List.mem_append_right _ (List.mem_map.mpr ⟨entry, hentry, rfl⟩)
    refine (allLegal_attributeChars_iff (hnames _ hpair)).mp fun c hc => ?_
    exact h c (List.mem_flatMap.mpr ⟨_, hpair, hc⟩)
  · intro h c hc
    obtain ⟨pair, hpair, hc⟩ := List.mem_flatMap.mp hc
    refine (allLegal_attributeChars_iff (hnames _ hpair)).mpr ?_ c hc
    rcases List.mem_append.mp hpair with hpair | hpair
    · obtain ⟨entry, hentry, rfl⟩ := List.mem_map.mp hpair
      exact huris entry hentry
    · obtain ⟨entry, hentry, rfl⟩ := List.mem_map.mp hpair
      exact h entry hentry

theorem allLegal_elementChars_iff (hdeclared : Declarable declarations)
    (huris : ∀ entry ∈ declarations, AllLegal entry.2.toList)
    (hlegible : Legible written scope node) :
    AllLegal (elementChars written declarations node) ↔
      (∀ entry ∈ node.attributes, AllLegal entry.2.toList) ∧ AllLegal node.text ∧
        AllLegal (node.children.flatMap (nodeChars written [])) := by
  have hmarks : isLegal '<' = true ∧ isLegal '>' = true ∧ isLegal '/' = true ∧
      isLegal ' ' = true := by decide
  have htext : AllLegal (node.text.flatMap textChar) ↔ AllLegal node.text :=
    allLegal_flatMap_iff fun _ => allLegal_textChar_iff
  rw [← List.append_nil (elementChars written declarations node),
    ← allLegal_tag_iff hdeclared huris hlegible]
  cases hempty : (node.text.isEmpty && node.children.isEmpty) with
  | true =>
      obtain ⟨hnone, hchildren⟩ : node.text = [] ∧ node.children = [] := by
        simpa using hempty
      rw [elementChars_of_empty hempty]
      simp [allLegal_append, allLegal_cons, allLegal_nil, hmarks, hlegible.name.allLegal, hnone,
        hchildren]
  | false =>
      rw [elementChars_of_inside hempty]
      simp [insideChars, allLegal_append, allLegal_cons, allLegal_nil, hmarks,
        hlegible.name.allLegal, htext]

theorem allLegal_nodeChars_iff (hdeclared : Declarable declarations)
    (huris : ∀ entry ∈ declarations, AllLegal entry.2.toList) (node : Node)
    (h : ∀ n, node.Encloses n → Legible written scope n) :
    AllLegal (nodeChars written declarations node) ↔ ∀ n, node.Encloses n → n.Legal := by
  induction node using Node.children_induction generalizing declarations with
  | step node ih =>
      have hown := h node (.self node)
      have hinside : AllLegal (node.children.flatMap (nodeChars written [])) ↔
          ∀ child ∈ node.children, ∀ n, child.Encloses n → n.Legal := by
        have hchild : ∀ child ∈ node.children, (AllLegal (nodeChars written [] child) ↔
            ∀ n, child.Encloses n → n.Legal) :=
          fun child hchild => ih child hchild .nil nofun fun n hn => h n (.child hchild hn)
        constructor
        · intro hall child hmem
          exact (hchild child hmem).mp fun c hc => hall c (List.mem_flatMap.mpr ⟨child, hmem, hc⟩)
        · intro hall c hc
          obtain ⟨child, hmem, hc⟩ := List.mem_flatMap.mp hc
          exact (hchild child hmem).mpr (hall child hmem) c hc
      have hsplit : AllLegal (nodeChars written declarations node) ↔
          node.Legal ∧ ∀ child ∈ node.children, ∀ n, child.Encloses n → n.Legal := by
        have hopen : isLegal '<' = true := by decide
        rw [nodeChars_eq, List.cons_append, allLegal_cons, allLegal_append, ← hinside,
          allLegal_elementChars_iff hdeclared huris hown,
          allLegal_flatMap_iff fun _ => allLegal_textChar_iff]
        constructor
        · rintro ⟨-, ⟨hvalues, htext, hchildren⟩, htail⟩
          exact ⟨⟨htext, htail, hvalues⟩, hchildren⟩
        · rintro ⟨hnode, hchildren⟩
          exact ⟨hopen, ⟨hnode.values, hnode.text, hchildren⟩, hnode.tail⟩
      rw [hsplit]
      constructor
      · rintro ⟨hnode, hchildren⟩ n hn
        cases hn with
        | self => exact hnode
        | child mem inner => exact hchildren _ mem n inner
      · intro hall
        exact ⟨hall node (.self node), fun child hchild n hn => hall n (.child hchild hn)⟩

/-! ## Whole documents -/

namespace Source

/-- In front of an element there is no declaration, no document type and nothing to skip. -/
theorem prolog_element {c : Char} (h : isNameStart c = true) (rest : List Char) :
    prolog ('<' :: c :: rest) = .ok ({}, '<' :: c :: rest) := by
  have hne : '?' ≠ c := (ne_of_isNameStart h (isNameStart_mark (by decide))).symm
  have hnone : after? "<?xml".toList ('<' :: c :: rest) = none := by
    simp [after?, List.isPrefixOf, hne]
  rw [prolog, hnone]

theorem skipMisc_element {c : Char} (h : isNameStart c = true) (rest : List Char) :
    skipMisc ('<' :: c :: rest) = .ok ⟨'<' :: c :: rest, Nat.le_refl _⟩ := by
  have hbang : '!' ≠ c := (ne_of_isNameStart h (isNameStart_mark (by decide))).symm
  have hmark : '?' ≠ c := (ne_of_isNameStart h (isNameStart_mark (by decide))).symm
  have hskip : skipSpace ('<' :: c :: rest) = ⟨_, Nat.le_refl _⟩ :=
    Item.skipSpace_of_head (by rintro d ⟨⟩; rfl)
  have hcomment : after? ['<', '!', '-', '-'] ('<' :: c :: rest) = none := by
    simp [after?, List.isPrefixOf, hbang]
  have hinstruction : after? ['<', '?'] ('<' :: c :: rest) = none := by
    simp [after?, List.isPrefixOf, hmark]
  rw [skipMisc, hskip]
  dsimp only
  rw [hcomment, hinstruction]

theorem after?_doctype_element {c : Char} (h : isNameStart c = true) (rest : List Char) :
    after? "<!DOCTYPE".toList ('<' :: c :: rest) = none := by
  have hbang : '!' ≠ c := (ne_of_isNameStart h (isNameStart_mark (by decide))).symm
  simp [after?, List.isPrefixOf, hbang]

theorem documentType_element (d : Declarations) {c : Char} (h : isNameStart c = true)
    (rest : List Char) :
    documentType d ('<' :: c :: rest) = .ok (d, '<' :: c :: rest) := by
  rw [documentType, skipMisc_element h]
  dsimp only
  rw [after?_doctype_element h]

theorem rootItem_element {cs : List Char} {item : Item}
    (h : Reads (Item.readElement {} [] cs) item []) : rootItem {} ('<' :: cs) = .ok item := by
  obtain ⟨hlt, hread⟩ := h
  have hend : skipMisc [] = .ok ⟨[], Nat.le_refl _⟩ := by
    rw [skipMisc]
    rfl
  rw [rootItem, afterChar?_cons_self]
  dsimp only
  rw [hread]
  dsimp only
  rw [hend]

/-- A root that is read is an element with nothing behind it but what is skipped. -/
theorem rootItem_inv {cs : List Char} {item : Item} (h : rootItem {} ('<' :: cs) = .ok item) :
    ∃ after, Reads (Item.readElement {} [] cs) item after ∧
      ∃ hle, skipMisc after = .ok ⟨[], hle⟩ := by
  rw [rootItem, afterChar?_cons_self] at h
  dsimp only at h
  split at h
  · cases h
  · rename_i after hlt helement
    split at h
    · cases h
    · rename_i hskips
      cases h
      exact ⟨after, ⟨hlt, helement⟩, _, hskips⟩
    · cases h

/-- A text that is one element and nothing else is read as what the element resolves to. -/
theorem ofText_element {text : String} {c : Char} {cs : List Char} {item : Item}
    {resolved : Resolved} {more : List Node}
    (hlines : normalizeLines (dropMark text.toList) = '<' :: c :: cs)
    (hlegal : AllLegal ('<' :: c :: cs)) (hc : isNameStart c = true)
    (hitem : Reads (Item.readElement {} [] (c :: cs)) item [])
    (hresolve : resolve Scope.initial [item] = .ok resolved)
    (hroot : resolved.nodes = root :: more) :
    ofText text = .ok { root, bindings := resolved.bindings } := by
  have hall : ('<' :: c :: cs).all isLegal = true := allLegal_iff_all.mp hlegal
  rw [ofText]
  simp only [hlines, hall, Bool.not_true, Bool.false_eq_true, if_false]
  rw [prolog_element hc]
  dsimp only
  rw [documentType_element _ hc]
  dsimp only
  rw [rootItem_element hitem]
  dsimp only
  rw [hresolve]
  dsimp only
  rw [hroot]

theorem dropMark_nodeChars : dropMark (nodeChars written declarations root) =
    nodeChars written declarations root := by
  rw [nodeChars_eq]
  rfl

/-- A document is read from its first tag on, with its line ends normalized. -/
theorem normalizeLines_document (hdeclared : Declarable declarations)
    (hnames : ∀ n, root.Encloses n → Inscribed written n) (htail : root.tail = []) :
    normalizeLines (dropMark (String.ofList (nodeChars written declarations root)).toList) =
      '<' :: elementChars written declarations root.normalized := by
  rw [String.toList_ofList, dropMark_nodeChars, nodeChars_eq, htail, List.flatMap_nil,
    List.append_nil, normalizeLines_cons (by decide), normalizeLines_root hdeclared root hnames]

/-- What is written for a document is read as the document, but for keys and line ends. -/
theorem ofText_written (hdeclared : Declarable declarations)
    (hlegible : ∀ n, root.Encloses n →
      Legible written (declarations.reverse ++ Scope.initial) n) (htail : root.tail = [])
    (hlegal : AllLegal (nodeChars written declarations root)) :
    ofText (String.ofList (nodeChars written declarations root)) =
      .ok { root := root.normalized, bindings := declarations } := by
  obtain ⟨c, front, hstart, hc⟩ := exists_cons_elementChars declarations
    (hlegible root (.self root)).of_normalized.name []
  rw [List.append_nil] at hstart
  have hlines := normalizeLines_document hdeclared (fun n hn => (hlegible n hn).inscribed) htail
  rw [hstart] at hlines
  have hall : AllLegal ('<' :: c :: front) := by
    rw [← hlines, String.toList_ofList, dropMark_nodeChars]
    exact allLegal_normalizeLines_iff.mpr hlegal
  obtain ⟨item, hlt, hitem, hjoin⟩ := readsElement_root hdeclared root hlegible []
  have hread : Reads (Item.readElement {} [] (c :: front)) item [] := by
    have hread : Reads (Item.readElement {} []
        (elementChars written declarations root.normalized ++ [])) item [] := ⟨hlt, hitem⟩
    rwa [List.append_nil, hstart] at hread
  have hkey : root.normalized.key = 0 := by rw [Node.normalized_eq]
  have hnoTail : root.normalized.tail = [] := by rw [Node.normalized_eq, htail]; rfl
  have hsame := root.normalized.eta_of_key hkey
  rw [hnoTail] at hsame
  rw [ofText_element hlines hall hc hread (hjoin [] ⟨[], [], []⟩ (by rw [resolve])) rfl, hsame,
    List.append_nil]

/-- Other characters make a written document unreadable. -/
theorem ofText_illegal {cs : List Char} (hmark : dropMark cs = cs) (h : ¬ AllLegal cs) :
    ofText (String.ofList cs) = .error .illegalCharacter := by
  have hall : (normalizeLines cs).all isLegal = false := by
    rw [← Bool.not_eq_true, List.all_eq_true]
    exact fun hall => h (allLegal_normalizeLines_iff.mp hall)
  rw [ofText, String.toList_ofList, hmark]
  simp only [hall, Bool.not_false, if_true]

/-! ## Blanks around a document -/

theorem trim_of_ends {cs : List Char} (first last : Char) (hfirst : cs.head? = some first)
    (hlast : cs.getLast? = some last) (hfront : Text.isBlank first = false)
    (hback : Text.isBlank last = false) : Text.trim (String.ofList cs) = String.ofList cs := by
  have hkeep : ∀ {ds : List Char} {d : Char}, ds.head? = some d → Text.isBlank d = false →
      Text.trimFront ds = ds := by
    intro ds d hd hblank
    cases ds with
    | nil => rfl
    | cons e rest =>
        cases hd
        simp [Text.trimFront, hblank]
  have hreverse : cs.reverse.head? = some last := by rw [List.head?_reverse, hlast]
  rw [Text.trim, Text.trimChars, String.toList_ofList, hkeep hfirst hfront,
    hkeep hreverse hback, List.reverse_reverse]

theorem getLast?_elementChars :
    (elementChars written declarations node).getLast? = some '>' := by
  unfold elementChars
  split <;> simp [List.getLast?_append, List.getLast?_cons]

theorem trim_nodeChars (htail : node.tail = []) :
    Text.trim (String.ofList (nodeChars written declarations node)) =
      String.ofList (nodeChars written declarations node) := by
  rw [nodeChars_eq, htail, List.flatMap_nil, List.append_nil]
  refine trim_of_ends '<' '>' rfl ?_ (by decide) (by decide)
  rw [List.getLast?_cons, getLast?_elementChars]
  rfl

theorem ofMarkup_written (hdeclared : Declarable declarations)
    (hlegible : ∀ n, root.Encloses n →
      Legible written (declarations.reverse ++ Scope.initial) n) (htail : root.tail = [])
    (hlegal : AllLegal (nodeChars written declarations root)) :
    ofMarkup (String.ofList (nodeChars written declarations root)) =
      .ok { root := root.normalized, bindings := declarations } := by
  rw [ofMarkup, trim_nodeChars htail, ofText_written hdeclared hlegible htail hlegal]

theorem ofMarkup_illegal (htail : root.tail = [])
    (h : ¬ AllLegal (nodeChars written declarations root)) :
    ofMarkup (String.ofList (nodeChars written declarations root)) =
      .error (.malformed .illegalCharacter) := by
  rw [ofMarkup, trim_nodeChars htail, ofText_illegal dropMark_nodeChars h]

end Source

end Cuesheet.Xml
