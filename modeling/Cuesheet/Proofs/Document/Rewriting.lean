import Cuesheet.Proofs.Document.Reread

/-!
# Written documents, written again

What is written for a document can be read, and is written again as it is exactly if no text in it
holds a carriage return and every namespace in it had a prefix registered when it was written
(`rewrite_iff`). A namespace without one is given a numbered prefix, which a document that declares
it cannot register.
-/

namespace Cuesheet

open Xml (Node Registry Labels Uses xmlUri nodeChars)

/-! ## The names of a tree -/

namespace Xml

variable {written written' : String → String} {declarations : List (String × String)}
  {node root : Node} {registry registry' : Registry} {labels : Labels}

theorem names_eq (node : Node) :
    Labels.names node =
      node.name :: (node.attributes.keys ++ node.children.flatMap Labels.names) := by
  have hnames : ∀ nodes : List Node, (nodes.flatMap Node.preorder).flatMap
      (fun node => node.name :: node.attributes.keys) = nodes.flatMap Labels.names := by
    intro nodes
    rw [List.flatMap_assoc]
    rfl
  rw [Labels.names, Node.preorder_eq, List.flatMap_cons, hnames, List.cons_append]

theorem names_normalized (node : Node) : Labels.names node.normalized = Labels.names node := by
  induction node using Node.children_induction with
  | step node ih =>
      rw [names_eq, names_eq node, Node.normalized_eq]
      simp only [List.flatMap_map]
      rw [List.flatMap_congr ih]

theorem names_number (node : Node) (next : Nat) :
    Labels.names (node.number next).1 = Labels.names node := by
  induction node using Node.children_induction generalizing next with
  | step node ih =>
      have hchildren := Node.map_numberAll ih (next + 1)
      rw [names_eq, names_eq node, Node.number_eq]
      simp only [List.flatMap_def]
      rw [hchildren]

/-! ## What is written for a tree -/

theorem nodeChars_number (declarations : List (String × String)) (node : Node) (next : Nat) :
    nodeChars written declarations (node.number next).1 = nodeChars written declarations node := by
  induction node using Node.children_induction generalizing declarations next with
  | step node ih =>
      have hchildren := Node.map_numberAll (fun child hchild => ih child hchild []) (next + 1)
      have hempty := congrArg List.isEmpty hchildren
      rw [List.isEmpty_map, List.isEmpty_map] at hempty
      rw [nodeChars_eq, nodeChars_eq, Node.number_eq]
      simp only [elementChars, insideChars, List.flatMap_def, hchildren, hempty]

/-- Only what is written for the names of a tree is used. -/
theorem nodeChars_congr (declarations : List (String × String))
    (h : ∀ name ∈ Labels.names node, written name = written' name) :
    nodeChars written declarations node = nodeChars written' declarations node := by
  induction node using Node.children_induction generalizing declarations with
  | step node ih =>
      rw [names_eq] at h
      obtain ⟨hname, hrest⟩ := List.forall_mem_cons.mp h
      obtain ⟨hkeys, hinside⟩ := List.forall_mem_append.mp hrest
      have hattributes : tagAttributes written declarations node.attributes =
          tagAttributes written' declarations node.attributes := by
        refine congrArg _ (List.map_congr_left fun entry hentry => ?_)
        rw [hkeys entry.1 (List.mem_map.mpr ⟨entry, hentry, rfl⟩)]
      have hchildren : node.children.flatMap (nodeChars written []) =
          node.children.flatMap (nodeChars written' []) := by
        refine List.flatMap_congr fun child hchild => ih child hchild [] fun name hmem => ?_
        exact hinside name (List.mem_flatMap.mpr ⟨child, hchild, hmem⟩)
      rw [nodeChars_eq, nodeChars_eq]
      simp only [elementChars, insideChars, hname, hattributes, hchildren]

/-- A carriage return is written where a text holds one, and nowhere else. -/
theorem return_mem_nodeChars_iff (hdeclared : Declarable declarations)
    (hnames : ∀ n, node.Encloses n → Inscribed written n) :
    '\r' ∈ nodeChars written declarations node ↔ '\r' ∈ node.innerText ∨ '\r' ∈ node.tail := by
  induction node using Node.children_induction generalizing declarations with
  | step node ih =>
      have htext : ∀ text : List Char, '\r' ∈ text.flatMap textChar ↔ '\r' ∈ text := by
        intro text
        rw [List.mem_flatMap]
        constructor
        · rintro ⟨c, hc, hmem⟩
          have hsame : c = '\r' := by
            unfold textChar at hmem
            split_ifs at hmem <;> simp at hmem
            exact hmem.symm
          rwa [hsame] at hc
        · intro hmem
          exact ⟨'\r', hmem, by decide⟩
      have hchildren : '\r' ∈ node.children.flatMap (nodeChars written []) ↔
          '\r' ∈ node.children.flatMap fun child => child.innerText ++ child.tail := by
        rw [List.mem_flatMap, List.mem_flatMap]
        refine exists_congr fun child => and_congr_right fun hchild => ?_
        rw [ih child hchild .nil fun n hn => hnames n (.child hchild hn), List.mem_append]
      have hname := (hnames node (.self node)).name.whole.return_notMem
      have htag := return_notMem_tag hdeclared (hnames node (.self node))
      rw [nodeChars_eq, List.cons_append, Node.innerText_eq, List.mem_append,
        List.mem_cons, List.mem_append, htext, ← hchildren]
      have hinside : '\r' ∈ elementChars written declarations node ↔
          '\r' ∈ node.text ∨ '\r' ∈ node.children.flatMap (nodeChars written []) := by
        cases hempty : (node.text.isEmpty && node.children.isEmpty) with
        | true =>
            obtain ⟨hnone, hnoChild⟩ : node.text = [] ∧ node.children = [] := by
              simpa using hempty
            rw [← List.append_nil (elementChars written declarations node),
              elementChars_of_empty hempty]
            simp [hname, htag, hnone, hnoChild]
        | false =>
            rw [← List.append_nil (elementChars written declarations node),
              elementChars_of_inside hempty]
            simp [hname, htag, insideChars, htext]
      rw [hinside]
      simp

/-! ## Labels with another registry -/

theorem prefixOf_congr {uri : String} (h : registry.value? uri = registry'.value? uri) :
    Labels.prefixOf registry labels uri = Labels.prefixOf registry' labels uri := by
  rw [Labels.prefixOf, Labels.prefixOf, h]

theorem meet_congr {name : String}
    (h : ∀ uri part, splitExpanded name = .ok (some uri, part) →
      registry.value? uri = registry'.value? uri) :
    Labels.meet registry labels name = Labels.meet registry' labels name := by
  rw [Labels.meet, Labels.meet]
  cases hsplit : splitExpanded name with
  | error fault => rfl
  | ok parts =>
      obtain ⟨uri, part⟩ := parts
      cases uri with
      | none => rfl
      | some uri => simp only [prefixOf_congr (h uri part hsplit)]

theorem foldlM_meet_congr {names : List String}
    (h : ∀ uri, Uses names uri → registry.value? uri = registry'.value? uri) (labels : Labels) :
    names.foldlM (Labels.meet registry) labels = names.foldlM (Labels.meet registry') labels := by
  induction names generalizing labels with
  | nil => rfl
  | cons name rest ih =>
      have hname : Labels.meet registry labels name = Labels.meet registry' labels name :=
        meet_congr fun uri part hsplit => h uri (uses_cons_iff.mpr (.inl ⟨part, hsplit⟩))
      rw [List.foldlM_cons, List.foldlM_cons, hname]
      refine congrArg _ (funext fun next => ih (fun uri huses => ?_) next)
      exact h uri (uses_cons_iff.mpr (.inr huses))

/-- What is chosen depends on what is registered for the namespaces in a tree, and on no more. -/
theorem ofTree_congr (hnames : Labels.names node = Labels.names root)
    (h : ∀ uri, Uses (Labels.names root) uri → registry.value? uri = registry'.value? uri) :
    Labels.ofTree registry node = Labels.ofTree registry' root := by
  rw [Labels.ofTree, Labels.ofTree, hnames, foldlM_meet_congr h]

theorem written_congr {names : List String} {name : String} (hname : name ∈ names)
    (h : ∀ uri, Uses names uri → registry.value? uri = registry'.value? uri) :
    labels.written registry name = labels.written registry' name := by
  rw [Labels.written, Labels.written]
  cases hsplit : splitExpanded name with
  | error fault => rfl
  | ok parts =>
      obtain ⟨uri, part⟩ := parts
      cases uri with
      | none => rfl
      | some uri => simp only [prefixOf_congr (h uri ⟨name, hname, part, hsplit⟩)]

end Xml

namespace Document

variable {doc : Document} {registry registered later : Registry} {labels : Labels}
  {text written uri label : String}

/-! ## What was written, as a document -/

/-- The document that is read from what was written with some labels. -/
def reread (doc : Document) (labels : Labels) : Document where
  tree := .ofNode doc.tree.root.normalized
  prefixes := Xml.Source.prefixes
    { root := doc.tree.root.normalized, bindings := labels.declarations }

namespace WrittenWith

theorem ofText_reread (hdoc : doc.Spelled) (h : doc.WrittenWith registered labels written)
    (hlegal : doc.tree.root.Inside Node.Legal) :
    Document.ofText written = .ok (doc.reread labels) := by
  rw [Document.ofText, h.reread hdoc hlegal]
  rfl

theorem names_reread (doc : Document) (labels : Labels) :
    Labels.names (doc.reread labels).tree.root = Labels.names doc.tree.root := by
  have hnumber := Xml.names_number doc.tree.root.normalized 0
  rw [Xml.names_normalized] at hnumber
  exact hnumber

/-- The labels can be registered exactly if they had been registered before. -/
theorem unreserved_iff (hdoc : doc.Spelled) (h : doc.WrittenWith registered labels written) :
    (∀ entry ∈ (doc.reread labels).prefixes, Registry.isReserved entry.2 = false) ↔
      ∀ uri, Uses (Labels.names doc.tree.root) uri → (registered.value? uri).isSome = true := by
  obtain ⟨hlabels, hcovers⟩ := h.labels_proper hdoc
  have hmem : ∀ {uri label}, (uri, label) ∈ (doc.reread labels).prefixes ↔ (uri, label) ∈ labels :=
    mem_prefixes_reread h.proper hlabels
  constructor
  · intro hunreserved uri huses
    rcases hcovers.all uri huses with rfl | hlabel
    · rw [h.proper.value?_eq_some_iff.mpr h.proper.xml]
      rfl
    · obtain ⟨label, hentry⟩ := Entries.mem_keys.mp hlabel
      have hreserved := hunreserved (uri, label) (hmem.mpr hentry)
      have hchosen : Labels.Chosen registered labels.length uri label := hlabels.chosen _ hentry
      rcases hchosen with ⟨hvalue, -⟩ | ⟨-, n, -, rfl⟩
      · rw [hvalue]
        rfl
      · rw [Xml.isReserved_numbered] at hreserved
        cases hreserved
  · rintro hsome ⟨uri, label⟩ hentry
    have hlabel := hmem.mp hentry
    have hchosen : Labels.Chosen registered labels.length uri label := hlabels.chosen _ hlabel
    rcases hchosen with ⟨hvalue, -⟩ | ⟨hnone, -⟩
    · exact h.proper.unreserved _ (Entries.mem_of_value? hvalue)
    · have hvalue := hsome uri (hcovers.only uri (List.mem_map.mpr ⟨_, hlabel, rfl⟩))
      rw [hnone] at hvalue
      cases hvalue

/-- Registering the labels again registers for every namespace in the tree what was registered. -/
theorem value?_again (hdoc : doc.Spelled) (h : doc.WrittenWith registered labels written)
    (hsome : ∀ uri, Uses (Labels.names doc.tree.root) uri →
      (registered.value? uri).isSome = true)
    {again : Registry} (hagain : Registry.Proper again)
    (hregister : later.registerAll (doc.reread labels).prefixes = (again, none))
    (huris : (doc.reread labels).prefixes.keys.Nodup) :
    ∀ uri, Uses (Labels.names doc.tree.root) uri → again.value? uri = registered.value? uri := by
  intro uri huses
  obtain ⟨hlabels, hcovers⟩ := h.labels_proper hdoc
  have hmem : ∀ {uri label}, (uri, label) ∈ (doc.reread labels).prefixes ↔ (uri, label) ∈ labels :=
    mem_prefixes_reread h.proper hlabels
  rcases hcovers.all uri huses with rfl | hlabel
  · rw [hagain.value?_eq_some_iff.mpr hagain.xml, h.proper.value?_eq_some_iff.mpr h.proper.xml]
  · obtain ⟨label, hentry⟩ := Entries.mem_keys.mp hlabel
    have hchosen : Labels.Chosen registered labels.length uri label := hlabels.chosen _ hentry
    have hprefixes : (List.map (·.2) (doc.reread labels).prefixes).Nodup := by
      refine List.Nodup.map_on ?_ huris.of_map
      rintro ⟨uri, label⟩ hfirst ⟨uri', label'⟩ hsecond rfl
      exact List.inj_on_of_nodup_map hlabels.prefixes (hmem.mp hfirst) (hmem.mp hsecond) rfl
    rcases hchosen with ⟨hvalue, -⟩ | ⟨hnone, -⟩
    · have hretained := Xml.retained_of_mem huris hprefixes (hmem.mpr hentry)
      rw [hvalue, hagain.value?_eq_some_iff]
      exact (Registry.mem_registerAll_iff hregister).mpr (.inl hretained)
    · have hvalue := hsome uri huses
      rw [hnone] at hvalue
      cases hvalue

/-- It is then written with the same labels. -/
theorem again (h : doc.WrittenWith registered labels written) {again : Registry}
    (hagain : Registry.Proper again)
    (hsame : ∀ uri, Uses (Labels.names doc.tree.root) uri →
      again.value? uri = registered.value? uri) :
    (doc.reread labels).WrittenWith again labels (String.ofList
      (nodeChars (labels.written registered) labels.declarations doc.tree.root.normalized)) := by
  refine ⟨hagain, ?_, congrArg String.ofList ?_⟩
  · rw [Xml.ofTree_congr (names_reread doc labels) hsame, h.chosen]
  · have hnumber : nodeChars (labels.written again) labels.declarations
        (doc.reread labels).tree.root = nodeChars (labels.written again) labels.declarations
          doc.tree.root.normalized := Xml.nodeChars_number _ _ 0
    rw [hnumber]
    refine Xml.nodeChars_congr _ fun name hname => ?_
    rw [Xml.names_normalized] at hname
    exact (Xml.written_congr hname hsame).symm

/-- That is the same text exactly if no text holds a carriage return. -/
theorem text_again_iff (hdoc : doc.Spelled) (h : doc.WrittenWith registered labels written) :
    String.ofList (nodeChars (labels.written registered) labels.declarations
      doc.tree.root.normalized) = written ↔ '\r' ∉ doc.tree.root.innerText := by
  obtain ⟨hlabels, -⟩ := h.labels_proper hdoc
  have hdeclared := Labels.declarable h.proper hlabels
  have hnames := fun n hn => (h.legible hdoc n hn).inscribed
  have hlines := Xml.normalizeLines_root hdeclared doc.tree.root hnames
  have htail : doc.tree.root.normalized.tail = [] := by
    rw [Node.normalized_eq, hdoc.tail]
    rfl
  have hchars : nodeChars (labels.written registered) labels.declarations
      doc.tree.root.normalized = Xml.normalizeLines
        (nodeChars (labels.written registered) labels.declarations doc.tree.root) := by
    rw [Xml.nodeChars_eq, Xml.nodeChars_eq, htail, hdoc.tail, List.flatMap_nil, List.append_nil,
      List.append_nil, Xml.normalizeLines_cons (by decide), hlines]
  rw [h.text, String.ofList_inj, hchars, Xml.normalizeLines_eq_self_iff,
    Xml.return_mem_nodeChars_iff hdeclared hnames, hdoc.tail]
  simp

end WrittenWith

/-- What is written for a document that was read can be read, and is written again as it is
exactly if no text holds a carriage return and every namespace had a prefix registered. -/
theorem rewrite_iff (hread : Document.ofText text = .ok doc)
    (hregistry : Registry.Reached registry)
    (hwrite : doc.write registry = (registered, .ok written)) :
    ∃ doc', Document.ofText written = .ok doc' ∧ ∀ later, Registry.Reached later →
      ((doc'.write later).2 = .ok written ↔ '\r' ∉ doc.tree.root.innerText ∧
        ∀ uri, Uses (Labels.names doc.tree.root) uri → (registered.value? uri).isSome = true) := by
  have hdoc := spelled_of_ofText hread
  have htext : (doc.write registry).2 = .ok written := by rw [hwrite]
  obtain ⟨registered', labels, hregister, hwritten⟩ :=
    writtenWith_of_write hdoc hregistry.proper htext
  have hsame : registered' = registered := by
    have hfirst := Registry.write_fst registry doc
    rw [hwrite, hregister] at hfirst
    exact hfirst.symm
  subst hsame
  have hlegal : doc.tree.root.Inside Node.Legal := fun n hn => (sound_of_ofText hread n hn).legal
  have hreread := hwritten.ofText_reread hdoc hlegal
  have hspelled := spelled_of_ofText hreread
  refine ⟨doc.reread labels, hreread, fun later hlater => ?_⟩
  have hunreserved := hwritten.unreserved_iff hdoc
  have hagain : (∀ uri, Uses (Labels.names doc.tree.root) uri →
      (registered'.value? uri).isSome = true) → ((doc.reread labels).write later).2 = .ok
        (String.ofList (nodeChars (labels.written registered') labels.declarations
          doc.tree.root.normalized)) := by
    intro hsome
    have hnone := (Registry.registerAll_eq_none_iff later (doc.reread labels).prefixes).mpr
      (hunreserved.mpr hsome)
    have hregister' : later.registerAll (doc.reread labels).prefixes =
        ((later.registerAll (doc.reread labels).prefixes).1, none) := by rw [← hnone]
    have hproper := Registry.proper_registerAll hlater.proper hspelled.prefixes
    exact write_of_writtenWith hregister' (hwritten.again hproper
      (hwritten.value?_again hdoc hsome hproper hregister' hspelled.uris))
  constructor
  · intro h
    have hsome := hunreserved.mp ((hspelled.write_ok_iff_unreserved later).mp ⟨written, h⟩)
    rw [hagain hsome] at h
    exact ⟨(hwritten.text_again_iff hdoc).mp (Except.ok.inj h), hsome⟩
  · rintro ⟨hreturn, hsome⟩
    rw [hagain hsome, (hwritten.text_again_iff hdoc).mpr hreturn]

/-! ## A namespace with a prefix, and one without -/

/-- The prefix `on` is declared for the only namespace. -/
def prefixedBox : String :=
  boxed [("xmlns:on", "urn:a"), ("id", "x")] [("id", "b"), ("on:click", "x()")]

def prefixedBoxDocument : Document :=
  boxDocument "vml" [("id", "x")] "box" [("id", "b"), (Xml.expand "urn:a" "click", "x()")]
    [("urn:a", "on")]

theorem ofText_prefixedBox : Document.ofText prefixedBox = .ok prefixedBoxDocument :=
  ofText_boxed (by decide +kernel) (by decide +kernel) (by decide +kernel) rfl rfl rfl rfl rfl rfl
    rfl

/-- It is written again as it is. -/
theorem prefixedBox_rewritten :
    ∃ written doc', Document.ofText prefixedBox = .ok prefixedBoxDocument ∧
      (prefixedBoxDocument.write Registry.wellKnown).2 = .ok written ∧
      Document.ofText written = .ok doc' ∧ (doc'.write Registry.wellKnown).2 = .ok written := by
  have hdoc := spelled_of_ofText ofText_prefixedBox
  obtain ⟨written, hwrite⟩ := (hdoc.write_ok_iff_unreserved Registry.wellKnown).mpr
    (by decide +kernel)
  have hboth : prefixedBoxDocument.write Registry.wellKnown =
      ((prefixedBoxDocument.write Registry.wellKnown).1, .ok written) := by rw [← hwrite]
  obtain ⟨doc', hread, hagain⟩ := rewrite_iff ofText_prefixedBox .wellKnown hboth
  refine ⟨written, doc', ofText_prefixedBox, hwrite, hread, (hagain _ .wellKnown).mpr ⟨?_, ?_⟩⟩
  · decide +kernel
  · intro uri huses
    have huris : ((Labels.names prefixedBoxDocument.tree.root).filterMap Xml.namespaceOf?).all
        (· == "urn:a") = true := by decide +kernel
    have huri := List.all_eq_true.mp huris uri (Xml.uses_iff_mem_filterMap.mp huses)
    obtain rfl : uri = "urn:a" := eq_of_beq huri
    rw [Registry.write_fst]
    decide +kernel

/-- The names are in a default namespace. -/
def defaultBox : String := boxed [("xmlns", "urn:x"), ("id", "r")] [("id", "b")]

def defaultBoxDocument : Document :=
  boxDocument (Xml.expand "urn:x" "vml") [("id", "r")] (Xml.expand "urn:x" "box") [("id", "b")] []

theorem ofText_defaultBox : Document.ofText defaultBox = .ok defaultBoxDocument :=
  ofText_boxed (by decide +kernel) (by decide +kernel) (by decide +kernel) rfl rfl rfl rfl rfl rfl
    rfl

/-- What is written for it can be read, but not written. -/
theorem defaultBox_unwritable :
    ∃ written doc', Document.ofText defaultBox = .ok defaultBoxDocument ∧
      (defaultBoxDocument.write Registry.wellKnown).2 = .ok written ∧
      Document.ofText written = .ok doc' ∧
      ∀ later, Registry.Reached later → ¬ ∃ again, (doc'.write later).2 = .ok again := by
  have hdoc := spelled_of_ofText ofText_defaultBox
  obtain ⟨written, hwrite⟩ := (hdoc.write_ok_iff_unreserved Registry.wellKnown).mpr
    (by decide +kernel)
  obtain ⟨registered, labels, hregister, hwritten⟩ :=
    writtenWith_of_write hdoc Registry.proper_wellKnown hwrite
  obtain rfl : Registry.wellKnown = registered := (Prod.mk.inj hregister).1
  have hread := hwritten.ofText_reread hdoc fun n hn =>
    (sound_of_ofText ofText_defaultBox n hn).legal
  refine ⟨written, _, ofText_defaultBox, hwrite, hread, fun later _ hagain => ?_⟩
  have hunreserved := ((spelled_of_ofText hread).write_ok_iff_unreserved later).mp hagain
  have huses : Uses (Labels.names defaultBoxDocument.tree.root) "urn:x" :=
    ⟨_, List.mem_cons_self, "vml", rfl⟩
  -- no prefix is registered for the namespace, so it was given a numbered one
  have hsome := (hwritten.unreserved_iff hdoc).mp hunreserved "urn:x" huses
  revert hsome
  decide +kernel

end Document

end Cuesheet
