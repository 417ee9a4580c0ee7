import Cuesheet.Proofs.Document.Keys
import Cuesheet.Proofs.Xml.Refused

/-!
# Which written trees are read back

Names that stay in one piece where they are written, and mean something that is written alike, are
settled. A tree of settled names is read back exactly if all its characters may stand in a document
and the attributes of every node in its tag (`Source.ofMarkup_settled_iff`): then the same text is
written for the tree with its attributes named by what they mean (`Node.renamed`), which is legible,
and otherwise it is refused at the node whose tag is not read.
-/

namespace Cuesheet.Xml

/-! ## Other names for attributes -/

namespace Node

mutual

/-- The tree with other names for its attributes. -/
def renamed (f : String → String) : Node → Node
  | ⟨key, name, attributes, text, children, tail⟩ =>
    ⟨key, name, List.map (fun entry => (f entry.1, entry.2)) attributes, text,
      renamedAll f children, tail⟩

def renamedAll (f : String → String) : List Node → List Node
  | [] => []
  | node :: rest => node.renamed f :: renamedAll f rest

end

variable {f : String → String} {node : Node}

theorem renamedAll_eq (f : String → String) (nodes : List Node) :
    renamedAll f nodes = nodes.map (renamed f) := by
  induction nodes with
  | nil => rfl
  | cons node rest ih => rw [renamedAll, ih, List.map_cons]

theorem renamed_eq (f : String → String) (node : Node) :
    node.renamed f = { node with
      attributes := List.map (fun entry => (f entry.1, entry.2)) node.attributes
      children := node.children.map (renamed f) } := by
  rw [← renamedAll_eq]
  cases node
  rw [renamed]

theorem keys_renamed (f : String → String) (node : Node) :
    (node.renamed f).attributes.keys = node.attributes.keys.map f := by
  rw [renamed_eq, Entries.keys, Entries.keys, List.map_map, List.map_map]
  rfl

theorem exists_of_encloses_renamed {n : Node} (h : (node.renamed f).Encloses n) :
    ∃ n', node.Encloses n' ∧ n = n'.renamed f := by
  induction node using children_induction with
  | step node ih =>
      cases h with
      | self => exact ⟨node, .self node, rfl⟩
      | @child _ c _ mem inner =>
          rw [renamed_eq] at mem
          obtain ⟨child, hchild, rfl⟩ := List.mem_map.mp mem
          obtain ⟨n', hn', rfl⟩ := ih child hchild inner
          exact ⟨n', .child hchild hn', rfl⟩

theorem normalized_renamed (f : String → String) (node : Node) :
    (node.renamed f).normalized = node.normalized.renamed f := by
  induction node using children_induction with
  | step node ih =>
      rw [normalized_eq, renamed_eq, renamed_eq, normalized_eq]
      simp only [List.map_map, Node.mk.injEq, true_and, and_true]
      exact List.map_congr_left ih

end Node

variable {written : String → String} {declarations : List (String × String)} {scope : Scope}
  {node root : Node}

theorem Node.Legal.renamed (h : node.Legal) (f : String → String) : (node.renamed f).Legal := by
  rw [Node.renamed_eq]
  refine ⟨h.text, h.tail, fun entry hentry => ?_⟩
  obtain ⟨entry', hentry', rfl⟩ := List.mem_map.mp hentry
  exact h.values entry' hentry'

theorem elementChars_renamed {f : String → String} (declarations : List (String × String))
    (h : ∀ n, node.Encloses n → ∀ key ∈ n.attributes.keys, written (f key) = written key) :
    elementChars written declarations (node.renamed f) =
      elementChars written declarations node := by
  induction node using Node.children_induction generalizing declarations with
  | step node ih =>
      have hattributes : List.map (fun entry => (written entry.1, entry.2))
          (node.renamed f).attributes =
          List.map (fun entry => (written entry.1, entry.2)) node.attributes := by
        rw [Node.renamed_eq, List.map_map]
        refine List.map_congr_left fun entry hentry => ?_
        exact congrArg (·, entry.2)
          (h node (.self node) entry.1 (List.mem_map.mpr ⟨entry, hentry, rfl⟩))
      have hchildren : (node.renamed f).children.flatMap (nodeChars written []) =
          node.children.flatMap (nodeChars written []) := by
        rw [Node.renamed_eq, List.flatMap_map]
        refine List.flatMap_congr fun child hchild => ?_
        have htail : (child.renamed f).tail = child.tail := by rw [Node.renamed_eq]
        rw [nodeChars_eq, nodeChars_eq, htail,
          ih child hchild [] fun n hn => h n (.child hchild hn)]
      have hsame : (node.renamed f).name = node.name ∧ (node.renamed f).text = node.text ∧
          (node.renamed f).children.isEmpty = node.children.isEmpty := by
        simp [Node.renamed_eq]
      obtain ⟨hname, htext, hempty⟩ := hsame
      rw [elementChars, elementChars, insideChars, insideChars, tagAttributes, tagAttributes,
        hattributes, hchildren, hname, htext, hempty]

/-! ## What written names mean -/

/-- What is written for the names of a node stays in one piece, and what it means is written in the
same way. The name of the node means itself. -/
structure Settled (written : String → String) (scope : Scope) (node : Node) : Prop
    extends Inscribed written node where
  meansName : scope.elementName (written node.name) = .ok node.name
  stable : ∀ key ∈ node.attributes.keys, IsQualified (written key).toList →
    ∀ name, scope.attributeName (written key) = .ok name → written name = written key

/-- What a name of an attribute means as it is written, if it means anything. -/
def meaning (written : String → String) (scope : Scope) (key : String) : String :=
  match scope.attributeName (written key) with
  | .ok name => name
  | .error _ => key

theorem meaning_of_ok {key name : String} (h : scope.attributeName (written key) = .ok name) :
    meaning written scope key = name := by
  rw [meaning, h]

theorem written_meaning (hnode : Settled written scope node) (htag : Tagged written scope node)
    {key : String} (hkey : key ∈ node.attributes.keys) :
    written (meaning written scope key) = written key := by
  obtain ⟨name, hname⟩ := htag.bound key hkey
  rw [meaning_of_ok hname]
  exact hnode.stable key hkey (htag.keys key hkey) name hname

/-- With its attributes named by what they mean, a node means itself. -/
theorem legible_renamed (hnode : Settled written scope node) (htag : Tagged written scope node) :
    Legible written scope (node.renamed (meaning written scope)) := by
  have hsame : (node.renamed (meaning written scope)).name = node.name := by rw [Node.renamed_eq]
  have hkeys : ∀ key' ∈ (node.renamed (meaning written scope)).attributes.keys,
      ∃ key ∈ node.attributes.keys, key' = meaning written scope key := by
    intro key' hkey'
    rw [Node.keys_renamed] at hkey'
    obtain ⟨key, hkey, rfl⟩ := List.mem_map.mp hkey'
    exact ⟨key, hkey, rfl⟩
  refine ⟨by rw [hsame]; exact hnode.name, by rw [hsame]; exact hnode.meansName, ?_, ?_, ?_, ?_⟩
  · intro key' hkey'
    obtain ⟨key, hkey, rfl⟩ := hkeys key' hkey'
    rw [written_meaning hnode htag hkey]
    exact htag.keys key hkey
  · intro key' hkey'
    obtain ⟨key, hkey, rfl⟩ := hkeys key' hkey'
    rw [written_meaning hnode htag hkey]
    exact hnode.unbinding key hkey
  · intro key' hkey'
    obtain ⟨key, hkey, rfl⟩ := hkeys key' hkey'
    obtain ⟨name, hname⟩ := htag.bound key hkey
    rw [written_meaning hnode htag hkey, meaning_of_ok hname]
    exact hname
  · have hmeant : (node.attributes.keys.map (meaning written scope)).map
        (fun name => (Except.ok name : Except Fault String)) =
          node.attributes.keys.map fun key => scope.attributeName (written key) := by
      rw [List.map_map]
      refine List.map_congr_left fun key hkey => ?_
      obtain ⟨name, hname⟩ := htag.bound key hkey
      rw [Function.comp_apply, meaning_of_ok hname, hname]
    rw [Node.keys_renamed]
    refine List.Nodup.of_map (fun name => (Except.ok name : Except Fault String)) ?_
    rw [hmeant]
    exact htag.distinct

theorem Settled.of_normalized (h : Settled written scope node) :
    Settled written scope node.normalized := by
  rw [Node.normalized_eq]
  exact ⟨⟨h.name, h.keys, h.unbinding⟩, h.meansName, h.stable⟩

theorem tagged_normalized_iff :
    Tagged written scope node.normalized ↔ Tagged written scope node := by
  rw [Node.normalized_eq]
  exact ⟨fun h => ⟨h.keys, h.bound, h.distinct⟩, fun h => ⟨h.keys, h.bound, h.distinct⟩⟩

/-! ## Trees with tags that are read -/

theorem legible_of_tagged (hsettled : root.Inside (Settled written scope))
    (htagged : root.Inside (Tagged written scope)) :
    ∀ n, (root.renamed (meaning written scope)).Encloses n → Legible written scope n := by
  intro n hn
  obtain ⟨n', hn', rfl⟩ := Node.exists_of_encloses_renamed hn
  exact legible_renamed (hsettled n' hn') (htagged n' hn')

theorem elementChars_meaning (declarations : List (String × String))
    (hsettled : root.Inside (Settled written scope))
    (htagged : root.Inside (Tagged written scope)) :
    elementChars written declarations (root.renamed (meaning written scope)) =
      elementChars written declarations root :=
  elementChars_renamed declarations fun n hn _ hkey =>
    written_meaning (hsettled n hn) (htagged n hn) hkey

theorem exists_of_encloses_normalized {n : Node} (h : node.normalized.Encloses n) :
    ∃ n', node.Encloses n' ∧ n = n'.normalized := by
  induction node using Node.children_induction with
  | step node ih =>
      cases h with
      | self => exact ⟨node, .self node, rfl⟩
      | @child _ c _ mem inner =>
          rw [Node.normalized_eq] at mem
          obtain ⟨child, hchild, rfl⟩ := List.mem_map.mp mem
          obtain ⟨n', hn', rfl⟩ := ih child hchild inner
          exact ⟨n', .child hchild hn', rfl⟩

/-- Such a tree is read to its end. -/
theorem reads_of_tagged (hsettled : node.Inside (Settled written scope))
    (htagged : node.Inside (Tagged written scope)) (cs : List Char) :
    ∃ item, Reads (Item.readElement {} [] (elementChars written [] node.normalized ++ cs))
      item cs := by
  have hlegible := legible_of_tagged hsettled htagged
  have hread := readsElement_normalized _ hlegible cs
  have hchars : elementChars written [] (node.renamed (meaning written scope)).normalized =
      elementChars written [] node.normalized := by
    rw [Node.normalized_renamed]
    refine elementChars_renamed [] fun n hn key hkey => ?_
    obtain ⟨n', hn', rfl⟩ := exists_of_encloses_normalized hn
    rw [Node.normalized_eq] at hkey
    exact written_meaning (hsettled n' hn') (htagged n' hn') hkey
  rw [hchars] at hread
  obtain ⟨item, hlt, hitem, -⟩ := hread
  exact ⟨item, hlt, hitem⟩

/-! ## Trees with tags that are not -/

/-- A tree is refused wherever it stands. -/
def RefusesTree (written : String → String) (declarations : List (String × String))
    (scope : Scope) (node : Node) : Prop :=
  ∀ cs, RefusesElement scope (elementChars written declarations node.normalized ++ cs)

/-- Among nodes in a row one that is refused is reached, since those in front of it are read. -/
theorem refusesContent_nodes {nodes : List Node}
    (hsettled : ∀ node ∈ nodes, node.Inside (Settled written scope))
    (hcases : ∀ node ∈ nodes, node.Inside (Tagged written scope) ∨ RefusesTree written [] scope node)
    (hnot : ¬ ∀ node ∈ nodes, node.Inside (Tagged written scope)) (cs : List Char) :
    RefusesContent scope
      ((nodes.map Node.normalized).flatMap (nodeChars written []) ++ '<' :: '/' :: cs) := by
  induction nodes with
  | nil => exact absurd nofun hnot
  | cons node more ih =>
      obtain ⟨hown, hsettled⟩ := List.forall_mem_cons.mp hsettled
      obtain ⟨hnode, hcases⟩ := List.forall_mem_cons.mp hcases
      have hstart := fun rest => exists_cons_elementChars []
        (hown node (.self node)).of_normalized.name rest
      rw [List.map_cons, List.flatMap_cons, nodeChars_eq]
      simp only [List.append_assoc, List.cons_append]
      rcases hnode with htagged | hrefused
      · have hlater : ¬ ∀ node ∈ more, node.Inside (Tagged written scope) := fun hall =>
          hnot (List.forall_mem_cons.mpr ⟨htagged, hall⟩)
        have hbehind := (ih hsettled hcases hlater).text node.normalized.tail
          (head?_nodes_close written _ cs)
        obtain ⟨item, hitem⟩ := reads_of_tagged hown htagged _
        exact hbehind.behind (hstart _) hitem
      · exact (hrefused _).content (hstart _)

/-- A node is refused if its tag or a node in it is. -/
theorem refusesTree_of_children (hdeclared : Declarable declarations)
    (hsettled : node.Inside (Settled written (declarations.reverse ++ scope)))
    (hchildren : ∀ child ∈ node.children, child.Inside (Tagged written (declarations.reverse ++ scope)) ∨
      RefusesTree written [] (declarations.reverse ++ scope) child)
    (hnot : ¬ node.Inside (Tagged written (declarations.reverse ++ scope))) :
    RefusesTree written declarations scope node := by
  intro cs
  have hown := (hsettled node (.self node)).of_normalized.toInscribed
  by_cases hall : ∀ child ∈ node.children, child.Inside (Tagged written (declarations.reverse ++ scope))
  · refine refusesElement_tag hdeclared hown (fun htag => hnot ?_) cs
    intro n hn
    cases hn with
    | self => exact tagged_normalized_iff.mp htag
    | child mem inner => exact hall _ mem n inner
  · have hinside : node.normalized.children = node.children.map Node.normalized := by
      rw [Node.normalized_eq]
    have hsome : node.normalized.children ≠ [] := by
      rw [hinside]
      intro hnone
      rw [List.map_eq_nil_iff.mp hnone] at hall
      exact hall nofun
    refine refusesElement_inside hdeclared hown hsome (fun rest => ?_) cs
    rw [insideChars, List.append_assoc, hinside]
    exact (refusesContent_nodes (fun child hchild n hn => hsettled n (.child hchild hn)) hchildren
      hall rest).text _ (head?_nodes_close written _ rest)

/-- A tree has all its attributes in tags where they can stand, or is refused. -/
theorem tagged_or_refusesTree (node : Node)
    (hsettled : node.Inside (Settled written scope)) :
    node.Inside (Tagged written scope) ∨ RefusesTree written [] scope node := by
  induction node using Node.children_induction with
  | step node ih =>
      by_cases htagged : node.Inside (Tagged written scope)
      · exact .inl htagged
      · refine .inr (refusesTree_of_children .nil hsettled (fun child hchild => ?_) htagged)
        exact ih child hchild fun n hn => hsettled n (.child hchild hn)

/-! ## Whole documents -/

theorem legal_of_attributeChars {name value : String} (h : AllLegal (attributeChars name value)) :
    AllLegal value.toList := by
  refine (allLegal_flatMap_iff fun _ => allLegal_valueChar_iff).mp (h.subset fun c hc => ?_)
  simp [attributeChars, hc]

/-- Whatever is written for its names, what a tree says is written as it is. -/
theorem legal_of_nodeChars (h : AllLegal (nodeChars written declarations node)) :
    node.Inside Node.Legal := by
  induction node using Node.children_induction generalizing declarations with
  | step node ih =>
      rw [nodeChars_eq, List.cons_append, allLegal_cons, allLegal_append,
        allLegal_flatMap_iff fun _ => allLegal_textChar_iff] at h
      obtain ⟨-, helement, htail⟩ := h
      rw [elementChars, allLegal_append, allLegal_append] at helement
      obtain ⟨-, htag, hinside⟩ := helement
      have hvalues : ∀ entry ∈ node.attributes, AllLegal entry.2.toList := by
        intro entry hentry
        have hpair : (written entry.1, entry.2) ∈
            tagAttributes written declarations node.attributes :=
          List.mem_append_right _ (List.mem_map.mpr ⟨entry, hentry, rfl⟩)
        exact legal_of_attributeChars
          (htag.subset fun c hc => List.mem_flatMap.mpr ⟨_, hpair, hc⟩)
      have hboth : AllLegal node.text ∧
          ∀ child ∈ node.children, AllLegal (nodeChars written [] child) := by
        split at hinside
        · rename_i hempty
          obtain ⟨htext, hchildren⟩ : node.text = [] ∧ node.children = [] := by
            simpa using hempty
          rw [htext, hchildren]
          exact ⟨allLegal_nil, fun _ hchild => absurd hchild List.not_mem_nil⟩
        · rw [allLegal_cons, allLegal_append, insideChars, allLegal_append,
            allLegal_flatMap_iff fun _ => allLegal_textChar_iff] at hinside
          obtain ⟨-, ⟨htext, hchildren⟩, -⟩ := hinside
          exact ⟨htext, fun child hchild =>
            hchildren.subset fun c hc => List.mem_flatMap.mpr ⟨child, hchild, hc⟩⟩
      exact Node.inside_iff.mpr ⟨⟨hboth.1, htail, hvalues⟩,
        fun child hchild => ih child hchild (hboth.2 child hchild)⟩

namespace Source

/-- A text whose only element is refused is not read. -/
theorem ofText_refused {text : String} {c : Char} {cs : List Char}
    (hlines : normalizeLines (dropMark text.toList) = '<' :: c :: cs) (hc : isNameStart c = true)
    (hrefused : RefusesElement Scope.initial (c :: cs)) (source : Source) :
    ofText text ≠ .ok source := by
  intro h
  rw [ofText] at h
  simp only [hlines] at h
  split at h
  · cases h
  · rw [prolog_element hc] at h
    dsimp only at h
    rw [documentType_element _ hc] at h
    dsimp only at h
    split at h
    · cases h
    · rename_i item hitem
      obtain ⟨rest, hread, -⟩ := rootItem_inv hitem
      split at h
      · cases h
      · rename_i resolved hresolved
        exact hrefused item rest hread [] resolved hresolved

/-- What is written for a tree with settled names is read exactly if all its characters may stand
in a document and its attributes in their tags. -/
theorem ofMarkup_settled_iff (hdeclared : Declarable declarations)
    (huris : ∀ entry ∈ declarations, AllLegal entry.2.toList)
    (hsettled : root.Inside (Settled written (declarations.reverse ++ Scope.initial)))
    (htail : root.tail = []) :
    (∃ source, ofMarkup (String.ofList (nodeChars written declarations root)) = .ok source) ↔
      root.Inside Node.Legal ∧
        root.Inside (Tagged written (declarations.reverse ++ Scope.initial)) := by
  constructor
  · rintro ⟨source, hread⟩
    have hlegal : root.Inside Node.Legal := by
      by_contra hnot
      rw [ofMarkup_illegal htail fun hall => hnot (legal_of_nodeChars hall)] at hread
      cases hread
    refine ⟨hlegal, ?_⟩
    by_contra hnot
    have hrefused := refusesTree_of_children hdeclared hsettled
      (fun child hchild => tagged_or_refusesTree child fun n hn => hsettled n (.child hchild hn))
      hnot []
    have hlines := normalizeLines_document hdeclared (fun n hn => (hsettled n hn).toInscribed) htail
    obtain ⟨c, front, hstart, hc⟩ := exists_cons_elementChars declarations
      (hsettled root (.self root)).of_normalized.name []
    rw [hstart] at hrefused
    rw [List.append_nil] at hstart
    rw [hstart] at hlines
    rw [ofMarkup, trim_nodeChars htail] at hread
    split at hread
    · cases hread
    · rename_i source' hsource
      exact ofText_refused hlines hc hrefused source' hsource
  · rintro ⟨hlegal, htagged⟩
    -- the same text is written for the tree with its attributes named by what they mean
    have hlegible := legible_of_tagged hsettled htagged
    generalize hmeant : root.renamed
      (meaning written (declarations.reverse ++ Scope.initial)) = meant at hlegible
    have hnoTail : meant.tail = [] := by rw [← hmeant, Node.renamed_eq, htail]
    have hchars : nodeChars written declarations meant = nodeChars written declarations root := by
      rw [nodeChars_eq, nodeChars_eq, hnoTail, htail, ← hmeant,
        elementChars_meaning declarations hsettled htagged]
    have hall : AllLegal (nodeChars written declarations meant) := by
      refine (allLegal_nodeChars_iff hdeclared huris meant hlegible).mpr fun n hn => ?_
      rw [← hmeant] at hn
      obtain ⟨n', hn', rfl⟩ := Node.exists_of_encloses_renamed hn
      exact (hlegal n' hn').renamed _
    exact ⟨_, hchars ▸ ofMarkup_written hdeclared hlegible hnoTail hall⟩

end Source

end Cuesheet.Xml
