import Cuesheet.Patch.Apply
import Cuesheet.Proofs.Document.Reread
import Cuesheet.Proofs.Xml.Attributable

/-!
# Patched documents that can be loaded again

What is written of a document after a batch of patches is loaded again exactly if the document is
`Loadable` (`written_loadable`), which is a matter of the names and the texts that the batch sets:
batches that set what markup can spell always leave a loadable document (`loads_of_harmless`), and
an attribute with a prefix that is not declared does not.
-/

namespace Cuesheet

open Xml (Node Registry Labels Assignable Attributable)

/-! ## What keeps names assignable -/

namespace Xml.Node

/-- The name of a node is one that markup can spell, and no attribute is there twice. -/
structure Named (node : Node) : Prop where
  name : Xml.Proper node.name
  nodup : node.attributes.keys.Nodup

theorem local_named : Local Named :=
  ⟨fun _ _ _ h => ⟨h.name, h.nodup⟩, fun h _ => ⟨h.name, h.nodup⟩⟩

theorem local_assigned : Local Assigned :=
  ⟨fun _ _ _ h => ⟨h.name, h.keys, h.nodup⟩, fun h _ => ⟨h.name, h.keys, h.nodup⟩⟩

theorem local_sound : Local Sound :=
  ⟨shallow_sound, fun h other => ⟨⟨h.proper.name, h.proper.keys, h.proper.nodup⟩,
    ⟨h.legal.text, other.legal.tail, h.legal.values⟩⟩⟩

theorem Sound.named {node : Node} (h : node.Sound) : node.Named := ⟨h.proper.name, h.proper.nodup⟩

theorem Sound.assigned {node : Node} (h : node.Sound) : node.Assigned :=
  ⟨h.proper.name, fun key hkey => .of_proper (h.proper.keys key hkey).1 (h.proper.keys key hkey).2,
    h.proper.nodup⟩

theorem Assigned.setAttribute {node : Node} (h : node.Assigned) {name : String}
    (hname : Assignable name) (value : Option String) : (node.setAttribute name value).Assigned := by
  refine ⟨h.name, fun key hkey => ?_, nodup_setAttribute h.nodup name value⟩
  rcases mem_keys_setAttribute hkey with hkey | rfl
  · exact h.keys key hkey
  · exact hname

theorem Legal.setAttribute {node : Node} (h : node.Legal) {name : String} {value : Option String}
    (hvalue : ∀ text, value = some text → AllLegal text.toList) :
    (node.setAttribute name value).Legal := by
  refine ⟨h.text, h.tail, fun entry hentry => ?_⟩
  cases value with
  | none => exact h.values entry (List.mem_filter.mp hentry).1
  | some text =>
      rcases Declarations.mem_put hentry with hentry | heq
      · exact h.values entry hentry
      · rw [heq]
        exact hvalue text rfl

end Xml.Node

namespace Document

variable {doc start : Document} {registry registered : Registry} {labels : Labels}
  {text written name : String}

/-! ## Documents that are loaded again -/

/-- The labels that are chosen for the namespaces of a document where it is written. -/
def chosenLabels (registry : Registry) (doc : Document) : Labels :=
  match Labels.ofTree (registry.registerAll doc.prefixes).1 doc.tree.root with
  | .ok labels => labels
  | .error _ => []

/-- All that a document says may stand in a document, and its attributes can stand in their tags
with the labels that are declared. -/
structure Loadable (registry : Registry) (doc : Document) : Prop where
  legal : doc.tree.root.Inside Node.Legal
  attributes : doc.tree.root.Inside fun n => ∀ key ∈ n.attributes.keys,
    Attributable (doc.chosenLabels registry) n.attributes.keys key

theorem ofText_ok_iff :
    (∃ loaded, Document.ofText text = .ok loaded) ↔ ∃ source, Xml.Source.ofMarkup text = .ok source := by
  unfold Document.ofText
  cases Xml.Source.ofMarkup text with
  | error fault => simp [Except.map]
  | ok source => simp [Except.map]

theorem chosenLabels_eq (hregister : registry.registerAll doc.prefixes = (registered, none))
    (h : doc.WrittenWith registered labels written) : doc.chosenLabels registry = labels := by
  rw [chosenLabels, hregister]
  dsimp only
  rw [h.chosen]

/-- The namespaces of a tree can be bound if those of its attributes can. -/
theorem bindable_of_inside {root : Node} (hnames : root.Inside fun n => Xml.Proper n.name)
    (hkeys : root.Inside fun n => ∀ key ∈ n.attributes.keys, ∀ uri part,
      Xml.splitExpanded key = .ok (some uri, part) → Xml.Bindable uri) :
    ∀ uri, Xml.Uses (Labels.names root) uri → Xml.Bindable uri := by
  rintro uri ⟨name, hname, part, hsplit⟩
  obtain ⟨n, hn, rfl | hkey⟩ := Labels.mem_names.mp hname
  · exact Labels.bindable_of_splitExpanded (hnames n hn) hsplit
  · exact hkeys n hn name hkey uri part hsplit

/-- A document whose attributes have assignable names is loaded exactly if it is loadable. -/
theorem loads_iff_of_assigned (hprefixes : ∀ entry ∈ doc.prefixes, Xml.Binds entry.1 entry.2)
    (htail : doc.tree.root.tail = []) (hassigned : doc.tree.root.Inside Node.Assigned)
    (hregistry : Registry.Proper registry) (hwrite : (doc.write registry).2 = .ok written) :
    (∃ loaded, Document.ofText written = .ok loaded) ↔ doc.Loadable registry := by
  obtain ⟨registered, labels, hregister, h⟩ := writtenWith_of_binds hprefixes hregistry hwrite
  have hnames := bindable_of_inside (fun n hn => (hassigned n hn).name)
    fun n hn key hkey uri part => ((hassigned n hn).keys key hkey).bindable
  obtain ⟨hlabels, hcovers⟩ := Labels.proper_of_ofTree h.proper hnames h.chosen
  have huris : ∀ entry ∈ labels.declarations, Xml.AllLegal entry.2.toList := fun entry hentry =>
    (hlabels.bindable _ (Labels.mem_declarations.mp hentry)).legal
  have hsettled : doc.tree.root.Inside (Xml.Settled (labels.written registered) labels.scope) :=
    fun n hn => Xml.settled_written h.proper hlabels hcovers (hassigned n hn) hn
  have htags : doc.tree.root.Inside (Xml.Tagged (labels.written registered) labels.scope) ↔
      doc.tree.root.Inside fun n => ∀ key ∈ n.attributes.keys,
        Attributable labels n.attributes.keys key := by
    refine forall_congr' fun n => forall_congr' fun hn => ⟨fun htag key hkey => ?_, fun hall => ?_⟩
    · exact Xml.attributable_of_tagged h.proper hlabels hcovers (hassigned n hn) hn htag hkey
    · exact Xml.tagged_of_attributable h.proper hlabels hcovers (hassigned n hn).nodup hn hall
  rw [ofText_ok_iff, h.text, Xml.Source.ofMarkup_settled_iff
    (Labels.declarable h.proper hlabels) huris hsettled htail]
  constructor
  · rintro ⟨hlegal, htagged⟩
    exact ⟨hlegal, by rw [chosenLabels_eq hregister h]; exact htags.mp htagged⟩
  · rintro ⟨hlegal, hattributes⟩
    rw [chosenLabels_eq hregister h] at hattributes
    exact ⟨hlegal, htags.mpr hattributes⟩

/-- In a loadable document all attributes have assignable names. -/
theorem Loadable.assigned (h : doc.Loadable registry)
    (hprefixes : ∀ entry ∈ doc.prefixes, Xml.Binds entry.1 entry.2)
    (hnamed : doc.tree.root.Inside Node.Named) (hregistry : Registry.Proper registry)
    (hwrite : (doc.write registry).2 = .ok written) : doc.tree.root.Inside Node.Assigned := by
  obtain ⟨registered, labels, hregister, hwritten⟩ :=
    writtenWith_of_binds hprefixes hregistry hwrite
  have hattributes := h.attributes
  rw [chosenLabels_eq hregister hwritten] at hattributes
  have hnames := bindable_of_inside (fun n hn => (hnamed n hn).name)
    fun n hn key hkey uri part => (hattributes n hn key hkey).bindable
  obtain ⟨hlabels, -⟩ := Labels.proper_of_ofTree hwritten.proper hnames hwritten.chosen
  exact fun n hn => ⟨(hnamed n hn).name,
    fun key hkey => (hattributes n hn key hkey).assignable hwritten.proper hlabels,
    (hnamed n hn).nodup⟩

end Document

namespace Patch

variable {doc start : Document} {registry : Registry} {text written name : String}
  {patch : Patch} {enforce : Bool} {entries : List Entry} {batch : List (Option Patch)}

/-! ## Batches -/

/-- What is true of a document that was read, whatever it was patched with. -/
theorem applyText_ok (h : applyText enforce text entries = .ok doc) :
    ∃ start batch, Document.ofText text = .ok start ∧ decodeAll entries = .ok batch ∧
      applyAll enforce start batch = .ok doc := by
  unfold applyText at h
  split at h
  · cases h
  · rename_i start hread
    unfold applyBatch at h
    split at h
    · cases h
    · split at h
      · cases h
      · rename_i batch hbatch
        exact ⟨start, batch, hread, hbatch, h⟩

/-- The name that a patch gives to an attribute stays in one piece and declares no prefix. -/
def GivesWhole : Patch → Prop
  | .setAttr _ name _ => Xml.Whole name.toList ∧ Xml.Scope.boundPrefix? name = none
  | _ => True

theorem assignable_qualify (hprefixes : ∀ entry ∈ doc.prefixes, Xml.Binds entry.1 entry.2)
    (hwhole : Xml.Whole name.toList) (hunbinding : Xml.Scope.boundPrefix? name = none) :
    Assignable (doc.qualify name) := by
  rw [Document.qualify]
  split
  · exact .plain hwhole hunbinding
  · rename_i label rest hsplit
    split
    · rename_i uri label' hfind
      have hbinds := hprefixes _ (List.mem_of_find?_eq_some hfind)
      refine .within hbinds.bindable fun c hc hmem => hwhole c hc ?_
      rw [Xml.eq_of_splitAtFirst hsplit]
      exact List.mem_append_right _ (List.mem_cons_of_mem _ (by simpa using hmem))
    · exact .plain hwhole hunbinding

theorem keeps_named (patch : Patch) (doc : Document) : patch.Keeps Node.Named doc := by
  cases patch with
  | setAttr id name value => exact fun n hn => ⟨hn.name, Node.nodup_setAttribute hn.nodup _ _⟩
  | setText id text => exact fun n hn => ⟨hn.name, hn.nodup⟩
  | sealScene id => exact fun n hn => ⟨hn.name, Node.nodup_setAttribute hn.nodup _ _⟩
  | appendNode _ _ _ | removeNode _ | replaceSubtree _ _ => trivial

theorem keeps_assigned (hprefixes : ∀ entry ∈ doc.prefixes, Xml.Binds entry.1 entry.2)
    (h : patch.GivesWhole) : patch.Keeps Node.Assigned doc := by
  cases patch with
  | setAttr id name value =>
      exact fun n hn => hn.setAttribute (assignable_qualify hprefixes h.1 h.2) value
  | setText id text => exact fun n hn => ⟨hn.name, hn.keys, hn.nodup⟩
  | sealScene id =>
      have hwhole : Xml.Whole "sealed".toList := by decide
      exact fun n hn => hn.setAttribute (assignable_qualify hprefixes hwhole rfl) _
  | appendNode _ _ _ | removeNode _ | replaceSubtree _ _ => trivial

/-- What every batch leaves of a document that was read. -/
theorem frame_of_applyText (h : applyText enforce text entries = .ok doc) :
    (∀ entry ∈ doc.prefixes, Xml.Binds entry.1 entry.2) ∧ doc.tree.root.tail = [] ∧
      doc.tree.root.Inside Node.Named := by
  obtain ⟨start, batch, hread, -, hall⟩ := applyText_ok h
  have hstart := Document.spelled_of_ofText hread
  obtain ⟨hprefixes, htail⟩ := frame_of_applyAll hall
  refine ⟨hprefixes ▸ hstart.prefixes, htail.trans hstart.tail, ?_⟩
  exact inside_of_applyAll Node.local_named (fun _ hn => hn.named)
    (fun n hn => (Document.sound_of_ofText hread n hn).named)
    (fun patch _ => keeps_named patch start) hall

theorem loads_of_loadable (happly : applyText enforce text entries = .ok doc)
    (hregistry : Registry.Reached registry) (hwrite : (doc.write registry).2 = .ok written)
    (h : doc.Loadable registry) : ∃ loaded, Document.ofText written = .ok loaded := by
  obtain ⟨hprefixes, htail, hnamed⟩ := frame_of_applyText happly
  have hassigned := h.assigned hprefixes hnamed hregistry.proper hwrite
  exact (Document.loads_iff_of_assigned hprefixes htail hassigned hregistry.proper hwrite).mpr h

theorem loadable_of_loads (happly : applyText enforce text entries = .ok doc)
    (hregistry : Registry.Reached registry) (hwrite : (doc.write registry).2 = .ok written)
    (hwhole : ∀ batch, decodeAll entries = .ok batch → ∀ patch, some patch ∈ batch →
      patch.GivesWhole)
    (h : ∃ loaded, Document.ofText written = .ok loaded) : doc.Loadable registry := by
  obtain ⟨hprefixes, htail, -⟩ := frame_of_applyText happly
  obtain ⟨start, batch, hread, hbatch, hall⟩ := applyText_ok happly
  have hassigned := inside_of_applyAll Node.local_assigned (fun _ hn => hn.assigned)
    (fun n hn => (Document.sound_of_ofText hread n hn).assigned)
    (fun patch hpatch => keeps_assigned (Document.spelled_of_ofText hread).prefixes
      (hwhole batch hbatch patch hpatch)) hall
  exact (Document.loads_iff_of_assigned hprefixes htail hassigned hregistry.proper hwrite).mp h

/-- What is written after a batch is loaded again if the document is loadable; and only then, if
the names that the batch gives to attributes stay in one piece. -/
theorem written_loadable (happly : applyText enforce text entries = .ok doc)
    (hregistry : Registry.Reached registry) (hwrite : (doc.write registry).2 = .ok written) :
    (doc.Loadable registry → ∃ loaded, Document.ofText written = .ok loaded) ∧
      ((∀ batch, decodeAll entries = .ok batch → ∀ patch, some patch ∈ batch → patch.GivesWhole) →
        (∃ loaded, Document.ofText written = .ok loaded) → doc.Loadable registry) :=
  ⟨loads_of_loadable happly hregistry hwrite, loadable_of_loads happly hregistry hwrite⟩

/-! ## Batches that can do no harm -/

/-- A patch sets attributes only that markup can spell, with what may stand in a document, and no
other text. -/
def Harmless (doc : Document) : Patch → Prop
  | .setAttr _ name value =>
    doc.AttributeName name ∧ ∀ text, value = some text → Xml.AllLegal text.toList
  | .setText _ text => Xml.AllLegal text.toList
  | _ => True

theorem keeps_sound (hdoc : doc.Spelled) (h : patch.Harmless doc) : patch.Keeps Node.Sound doc := by
  cases patch with
  | setAttr id name value =>
      obtain ⟨hname, hvalue⟩ := h
      obtain ⟨hproper, hbinds⟩ := Document.qualify_proper hdoc hname
      exact fun n hn => ⟨hn.proper.setAttribute hproper hbinds value, hn.legal.setAttribute hvalue⟩
  | setText id text =>
      exact fun n hn => ⟨⟨hn.proper.name, hn.proper.keys, hn.proper.nodup⟩,
        ⟨h, hn.legal.tail, hn.legal.values⟩⟩
  | sealScene id =>
      have hsealed : doc.AttributeName "sealed" := .simple (by decide +kernel) (by decide)
      obtain ⟨hproper, hbinds⟩ := Document.qualify_proper hdoc hsealed
      refine fun n hn => ⟨hn.proper.setAttribute hproper hbinds _, hn.legal.setAttribute ?_⟩
      rintro text ⟨⟩
      show Xml.AllLegal "true".toList
      decide
  | appendNode _ _ _ | removeNode _ | replaceSubtree _ _ => trivial

/-- After a batch of such patches whatever is written is loaded again. -/
theorem loads_of_harmless (happly : applyText enforce text entries = .ok doc)
    (hregistry : Registry.Reached registry) (hwrite : (doc.write registry).2 = .ok written)
    (hharmless : ∀ start batch, Document.ofText text = .ok start → decodeAll entries = .ok batch →
      ∀ patch, some patch ∈ batch → patch.Harmless start) :
    ∃ loaded, Document.ofText written = .ok loaded := by
  obtain ⟨start, batch, hread, hbatch, hall⟩ := applyText_ok happly
  have hsound := inside_of_applyAll Node.local_sound (fun _ hn => hn)
    (Document.sound_of_ofText hread)
    (fun patch hpatch => keeps_sound (Document.spelled_of_ofText hread)
      (hharmless start batch hread hbatch patch hpatch)) hall
  refine loads_of_loadable happly hregistry hwrite ⟨fun n hn => (hsound n hn).legal, ?_⟩
  intro n hn key hkey
  obtain ⟨hproper, hbinds⟩ := (hsound n hn).proper.keys key hkey
  exact .proper hproper hbinds

/-! ## Prefixes that are not declared -/

open Document (boxed boxDocument)

def simpleBox : String := boxed [("id", "r")] [("id", "b")]

theorem ofText_simpleBox : Document.ofText simpleBox =
    .ok (boxDocument "vml" [("id", "r")] "box" [("id", "b")] []) :=
  Document.ofText_boxed (by decide +kernel) (by decide +kernel) (by decide +kernel) rfl rfl rfl rfl
    rfl rfl rfl

/-- A batch that gives the box one more attribute. -/
def attributeBatch (name value : String) : List Entry :=
  [.wire [("op", .text "setAttr"), ("nodeId", .text "b"), ("name", .text name),
    ("value", .text value)]]

theorem givesWhole_attributeBatch {name value : String} (hwhole : Xml.Whole name.toList)
    (hunbinding : Xml.Scope.boundPrefix? name = none) (batch : List (Option Patch))
    (hbatch : decodeAll (attributeBatch name value) = .ok batch) (patch : Patch)
    (hpatch : some patch ∈ batch) : patch.GivesWhole := by
  cases hbatch
  cases List.mem_singleton.mp hpatch
  exact ⟨hwhole, hunbinding⟩

/-- The document with one more attribute. -/
def attributedBox (name value : String) : Document :=
  boxDocument "vml" [("id", "r")] "box" [("id", "b"), (name, value)] []

theorem inside_attributedBox {p : Node → Prop} {name value : String} :
    (attributedBox name value).tree.root.Inside p ↔
      p (attributedBox name value).tree.root ∧
        p { key := 1, name := "box", attributes := [("id", "b"), (name, value)] } := by
  rw [Node.inside_iff]
  refine and_congr_right fun _ => ⟨fun h => ?_, fun h child hchild => ?_⟩
  · exact (Node.inside_iff.mp (h _ (List.mem_singleton_self _))).1
  · obtain rfl := List.mem_singleton.mp hchild
    exact Node.inside_iff.mpr ⟨h, nofun⟩

theorem attributable_id (keys : List String) : Attributable [] keys "id" :=
  .proper (.simple (by decide +kernel)) (by decide)

theorem loadable_attributedBox_iff {name value : String} (hvalue : Xml.AllLegal value.toList)
    (hlabels : (attributedBox name value).chosenLabels Registry.wellKnown = []) :
    (attributedBox name value).Loadable Registry.wellKnown ↔ Attributable [] ["id", name] name := by
  constructor
  · intro h
    have hattributes := h.attributes
    rw [hlabels, inside_attributedBox] at hattributes
    exact hattributes.2 name (by simp [Entries.keys])
  · intro h
    have hid : Xml.AllLegal "r".toList ∧ Xml.AllLegal "b".toList := by decide
    constructor
    · refine inside_attributedBox.mpr ⟨⟨Xml.allLegal_nil, Xml.allLegal_nil, ?_⟩,
        ⟨Xml.allLegal_nil, Xml.allLegal_nil, ?_⟩⟩
      · intro entry hentry
        obtain rfl := List.mem_singleton.mp hentry
        exact hid.1
      · intro entry hentry
        rcases List.mem_cons.mp hentry with rfl | hentry
        · exact hid.2
        · obtain rfl := List.mem_singleton.mp hentry
          exact hvalue
    · rw [hlabels, inside_attributedBox]
      constructor
      · intro key hkey
        obtain rfl := List.mem_singleton.mp hkey
        exact attributable_id _
      · intro key hkey
        rcases List.mem_cons.mp hkey with rfl | hkey
        · exact attributable_id _
        · obtain rfl := List.mem_singleton.mp hkey
          exact h

/-- The prefix `xml` needs no declaration. -/
theorem simpleBox_loaded :
    applyText true simpleBox (attributeBatch "xml:lang" "en") =
        .ok (attributedBox "xml:lang" "en") ∧
      ((attributedBox "xml:lang" "en").write Registry.wellKnown).2 =
        .ok "<vml id=\"r\"><box id=\"b\" xml:lang=\"en\" /></vml>" ∧
      (∃ loaded, Document.ofText "<vml id=\"r\"><box id=\"b\" xml:lang=\"en\" /></vml>" =
        .ok loaded) ∧
      (attributedBox "xml:lang" "en").Loadable Registry.wellKnown := by
  have happly : applyText true simpleBox (attributeBatch "xml:lang" "en") =
      .ok (attributedBox "xml:lang" "en") := by
    rw [applyText, ofText_simpleBox]
    rfl
  have hwrite : ((attributedBox "xml:lang" "en").write Registry.wellKnown).2 =
      .ok "<vml id=\"r\"><box id=\"b\" xml:lang=\"en\" /></vml>" := by decide +kernel
  have hvalue : Xml.AllLegal "en".toList := by decide
  have hlang : Attributable [] ["id", "xml:lang"] ("xml" ++ ":" ++ "lang") :=
    .prefixed (by decide +kernel) (by decide +kernel) (.inr ⟨rfl, rfl⟩) (by decide)
  have hloadable := (loadable_attributedBox_iff hvalue rfl).mpr hlang
  obtain ⟨hloads, hneeds⟩ := written_loadable happly .wellKnown hwrite
  exact ⟨happly, hwrite, hloads hloadable,
    hneeds (givesWhole_attributeBatch (by decide) rfl) (hloads hloadable)⟩

/-- The prefix `on` does, and a document that does not declare it takes it all the same. -/
theorem simpleBox_unloaded :
    applyText true simpleBox (attributeBatch "on:click" "go()") =
        .ok (attributedBox "on:click" "go()") ∧
      ((attributedBox "on:click" "go()").write Registry.wellKnown).2 =
        .ok "<vml id=\"r\"><box id=\"b\" on:click=\"go()\" /></vml>" ∧
      ¬ ∃ loaded, Document.ofText "<vml id=\"r\"><box id=\"b\" on:click=\"go()\" /></vml>" =
        .ok loaded := by
  have happly : applyText true simpleBox (attributeBatch "on:click" "go()") =
      .ok (attributedBox "on:click" "go()") := by
    rw [applyText, ofText_simpleBox]
    rfl
  have hwrite : ((attributedBox "on:click" "go()").write Registry.wellKnown).2 =
      .ok "<vml id=\"r\"><box id=\"b\" on:click=\"go()\" /></vml>" := by decide +kernel
  have hvalue : Xml.AllLegal "go()".toList := by decide
  refine ⟨happly, hwrite, fun hloads => ?_⟩
  have hloadable := loadable_of_loads happly .wellKnown hwrite
    (givesWhole_attributeBatch (by decide) rfl) hloads
  have hclick : Attributable [] ["id", "on:click"] ("on" ++ ":" ++ "click") :=
    (loadable_attributedBox_iff hvalue rfl).mp hloadable
  obtain ⟨uri, hmem | ⟨-, hxml⟩, -⟩ :=
    (Xml.attributable_prefixed_iff (by decide +kernel) (by decide +kernel)).mp hclick
  · cases hmem
  · exact absurd hxml (by decide)

end Patch

end Cuesheet
