import Cuesheet.Proofs.Xml.Followed

/-!
# An element inside other markup

A document that is one element, with comments, instructions and spaces around it, may be put
between the tags of another element. There it is read as texts with the same element among them
(`Source.readContent_enclosed`), and where the prefixes mean what they meant before the element
resolves to what it did before (`resolve_enclosed`).
-/

namespace Cuesheet.Xml

/-! ## Scopes that bind more -/

namespace Scope

variable {scope wider : Scope} {name expanded : String}

/-- What is bound in a scope is bound in another one, to the same namespace. -/
structure Within (scope wider : Scope) : Prop where
  kept : ∀ {label uri}, scope.uri? label = some uri → wider.uri? label = some uri
  sameDefault : wider.uri? "" = scope.uri? ""

theorem uri?_append (bound scope : Scope) (label : String) :
    uri? (bound ++ scope) label = (uri? bound label).or (scope.uri? label) := by
  rw [uri?, List.find?_append, Option.map_or]
  rfl

theorem Within.append (h : scope.Within wider) (bound : Scope) :
    Within (bound ++ scope) (bound ++ wider) where
  kept := by
    intro label uri
    rw [uri?_append, uri?_append]
    cases bound.uri? label with
    | none => exact h.kept
    | some _ => exact id
  sameDefault := by rw [uri?_append, uri?_append, h.sameDefault]

theorem Within.elementName (h : scope.Within wider)
    (hname : scope.elementName name = .ok expanded) : wider.elementName name = .ok expanded := by
  unfold Scope.elementName at hname ⊢
  split at hname
  · rw [h.sameDefault]
    exact hname
  · split at hname
    · cases hname
    · rename_i uri huri
      rw [h.kept huri]
      exact hname

theorem Within.attributeName (h : scope.Within wider)
    (hname : scope.attributeName name = .ok expanded) :
    wider.attributeName name = .ok expanded := by
  unfold Scope.attributeName at hname ⊢
  split at hname
  · exact hname
  · split at hname
    · cases hname
    · rename_i uri huri
      rw [h.kept huri]
      exact hname

theorem Within.attributes {pairs entries : List (String × String)} (h : scope.Within wider)
    (hpairs : scope.attributes pairs = .ok entries) : wider.attributes pairs = .ok entries := by
  induction pairs generalizing entries with
  | nil => exact hpairs
  | cons pair rest ih =>
      obtain ⟨name, value⟩ := pair
      rw [Scope.attributes] at hpairs ⊢
      split at hpairs
      · rename_i hbinds
        rw [if_pos hbinds]
        exact ih hpairs
      · rename_i hbinds
        rw [if_neg hbinds]
        split at hpairs
        · cases hpairs
        · rename_i hname
          split at hpairs
          · cases hpairs
          · rename_i hmore
            rw [h.attributeName hname, ih hmore]
            exact hpairs

variable {declarations : List (String × String)}

/-- Declarations bind no default namespace, and the prefix `xml` to what it is bound to anyway. -/
theorem uri?_declared (hdeclared : Declarable declarations) {label uri : String}
    (h : uri? declarations.reverse label = some uri) :
    isSimpleName label.toList = true ∧ (label = "xml" → uri = xmlUri) := by
  obtain ⟨entry, hfind, rfl⟩ := Option.map_eq_some_iff.mp h
  have hlabel := List.find?_some hfind
  obtain rfl : entry.1 = label := eq_of_beq hlabel
  have hentry := List.mem_reverse.mp (List.mem_of_find?_eq_some hfind)
  refine ⟨hdeclared.labels entry hentry, fun hxml => ?_⟩
  have hfault := hdeclared.faultless entry hentry
  unfold bindingFault? at hfault
  split_ifs at hfault with _ hsame
  simpa [hxml] using hsame

theorem uri?_empty_declared (hdeclared : Declarable declarations) :
    uri? (declarations.reverse ++ initial) "" = none := by
  rw [uri?_append, Option.or_eq_none_iff, Option.eq_none_iff_forall_ne_some]
  refine ⟨fun uri huri => ?_, by decide⟩
  have hsimple := (uri?_declared hdeclared huri).1
  cases hsimple

/-- So what is bound outside a root is bound under its declarations. -/
theorem within_declared (hdeclared : Declarable declarations) :
    Within initial (declarations.reverse ++ initial) where
  kept := by
    intro label uri h
    obtain ⟨entry, hfind, hentry⟩ := Option.map_eq_some_iff.mp h
    have hlabel := List.find?_some hfind
    obtain rfl := List.mem_singleton.mp (List.mem_of_find?_eq_some hfind)
    rw [uri?_append, h]
    cases hbound : uri? declarations.reverse label with
    | none => rfl
    | some uri' =>
        have hsame := (uri?_declared hdeclared hbound).2 (eq_of_beq hlabel).symm
        rw [hsame, ← hentry]
        rfl
  sameDefault := by
    rw [uri?_empty_declared hdeclared]
    decide

end Scope

variable {scope wider : Scope}

theorem Scope.Within.resolve {items : List Item} {resolved : Resolved}
    (h : scope.Within wider) (hitems : resolve scope items = .ok resolved) :
    resolve wider items = .ok resolved := by
  fun_induction Xml.resolve scope items generalizing wider resolved with
  | case1 =>
      cases hitems
      exact resolve_nil wider
  | case3 scope cs rest after hafter ih =>
      cases hitems
      rw [Xml.resolve, ih h hafter]
  | case9 scope name attributes content rest bound hbound =>
      rename_i name' attributes' hattributes hname inside hinside after hafter node ihInside ih
      cases hitems
      have hinner := h.append bound.reverse
      exact resolve_cons hbound (hinner.elementName hname) (hinner.attributes hattributes)
        (ihInside hinner hinside) (ih h hafter)
  | _ => cases hitems

theorem Node.eta_of_tail (node : Node) (h : node.tail = []) : { node with tail := [] } = node := by
  cases node
  cases h
  rfl

/-- Text behind an element is the tail of its node. -/
theorem resolve_tail {item : Item} {resolved : Resolved} {root : Node} {others : List Node}
    (h : resolve scope [item] = .ok resolved) (hroot : resolved.nodes = root :: others)
    (texts : List (List Char)) :
    resolve scope (item :: texts.map .text) =
      .ok ⟨[], [{ root with tail := texts.flatten }], resolved.bindings⟩ := by
  have htexts := resolve_texts texts (resolve_nil scope)
  rw [List.append_nil, List.append_nil] at htexts
  cases item with
  | text cs =>
      rw [resolve, resolve] at h
      cases h
      cases hroot
  | element name pairs content =>
      rw [resolve] at h ⊢
      split at h
      · cases h
      · dsimp only at h ⊢
        split at h
        · cases h
        · cases h
        · split at h
          · cases h
          · rw [resolve_nil] at h
            cases h
            cases hroot
            rw [htexts]

/-! ## Comments, instructions and spaces in content -/

namespace Item

variable {entities : Entities} {rules : Entries String (List AttributeRule)}
  {cs behind final : List Char} {items : List Item}

/-- What is in front of some content is read as texts. -/
def ReadsTexts (entities : Entities) (rules : Entries String (List AttributeRule))
    (cs behind : List Char) : Prop :=
  ∃ texts : List (List Char), ∀ {items final},
    Reads (readContent entities rules behind) items final →
      Reads (readContent entities rules cs) (texts.map .text ++ items) final

theorem ReadsTexts.refl (cs : List Char) : ReadsTexts entities rules cs cs := ⟨[], id⟩

theorem ReadsTexts.trans {between : List Char} (h : ReadsTexts entities rules cs between)
    (h' : ReadsTexts entities rules between behind) : ReadsTexts entities rules cs behind := by
  obtain ⟨texts, hread⟩ := h
  obtain ⟨texts', hread'⟩ := h'
  refine ⟨texts ++ texts', fun hbehind => ?_⟩
  rw [List.map_append, List.append_assoc]
  exact hread (hread' hbehind)

theorem ne_of_isSpace {c d : Char} (hc : isSpace c = true) (hd : isSpace d = false) : c ≠ d := by
  rintro rfl
  rw [hc] at hd
  cases hd

/-- Spaces are a text up to the next tag or reference. -/
theorem readsTexts_spaces {spaces : List Char} (hspaces : ∀ c ∈ spaces, isSpace c = true)
    (hends : ∀ d, behind.head? = some d → d = '<' ∨ d = '&') :
    ReadsTexts entities rules (spaces ++ behind) behind := by
  cases spaces with
  | nil => exact .refl _
  | cons c rest =>
      have hplain : ∀ d ∈ c :: rest, d ≠ '<' ∧ d ≠ '&' ∧ d ≠ '>' := fun d hd =>
        ⟨ne_of_isSpace (hspaces d hd) (by decide), ne_of_isSpace (hspaces d hd) (by decide),
          ne_of_isSpace (hspaces d hd) (by decide)⟩
      obtain ⟨⟨hlt, hamp, -⟩, hmore⟩ := List.forall_mem_cons.mp hplain
      have hrun : plainRun (rest ++ behind) = rest := by
        refine (takeWhile_append_of_all (fun d hd => ?_) (fun d hd => ?_)).1
        · simp [(hmore d hd).1, (hmore d hd).2.1]
        · rcases hends d hd with rfl | rfl <;> rfl
      have hsection : holdsSectionEnd (c :: rest) ≠ true := fun hend =>
        (hplain '>' (mem_of_until?_isSome hend (by simp))).2.2 rfl
      refine ⟨[c :: rest], fun hbehind => ?_⟩
      have hread := reads_plain (rest ++ behind) hlt hamp (by rwa [hrun]) (by rw [hrun])
        hbehind
      rwa [hrun] at hread

theorem readsTexts_skipSpace (cs more : List Char)
    (hends : ∀ d, ((skipSpace cs).1 ++ more).head? = some d → d = '<' ∨ d = '&') :
    ReadsTexts entities rules (cs ++ more) ((skipSpace cs).1 ++ more) := by
  have hsplit : cs = cs.takeWhile isSpace ++ (skipSpace cs).1 :=
    List.takeWhile_append_dropWhile.symm
  have hspaces : ∀ c ∈ cs.takeWhile isSpace, isSpace c = true := fun _ => List.mem_takeWhile_imp
  have hread : ReadsTexts entities rules (cs.takeWhile isSpace ++ ((skipSpace cs).1 ++ more))
    ((skipSpace cs).1 ++ more) := readsTexts_spaces hspaces hends
  rwa [← List.append_assoc, ← hsplit] at hread

theorem readsTexts_comment {rest : Rest cs} (h : comment cs = .ok rest) (more : List Char) :
    ReadsTexts entities rules ('<' :: '!' :: '-' :: '-' :: cs ++ more) (rest.1 ++ more) := by
  refine ⟨[], ?_⟩
  rintro items final ⟨hle, hread⟩
  obtain ⟨hle', hcomment⟩ := comment_followed h more
  simp only [List.cons_append]
  rw [readContent, hcomment]
  dsimp only
  rw [hread]
  exact ⟨_, rfl⟩

theorem readsTexts_instruction {rest : Rest cs} (h : instruction cs = .ok rest)
    (more : List Char) : ReadsTexts entities rules ('<' :: '?' :: cs ++ more) (rest.1 ++ more) := by
  refine ⟨[], ?_⟩
  rintro items final ⟨hle, hread⟩
  obtain ⟨hle', hinstruction⟩ := instruction_followed h more
  simp only [List.cons_append]
  rw [readContent, hinstruction]
  dsimp only
  rw [hread]
  exact ⟨_, rfl⟩

end Item

namespace Source

variable {entities : Entities} {rules : Entries String (List AttributeRule)}

/-- What may stand around a root is no more than texts where it stands in content. -/
theorem readsTexts_skipMisc {cs : List Char} {rest : Rest cs} (h : skipMisc cs = .ok rest)
    {more : List Char} (hends : ∀ d, (rest.1 ++ more).head? = some d → d = '<' ∨ d = '&') :
    Item.ReadsTexts entities rules (cs ++ more) (rest.1 ++ more) := by
  fun_induction skipMisc cs with
  | case3 cs body hbody hskip inside hle hopen after hle' hcomment hlt last hle'' hlast ih =>
      cases h
      have hspace : (skipSpace cs).1 = '<' :: '!' :: '-' :: '-' :: inside :=
        (congrArg Subtype.val hskip).trans (eq_append_of_after? hopen)
      refine (hspace ▸ Item.readsTexts_skipSpace cs more ?_).trans
        ((Item.readsTexts_comment hcomment more).trans (ih hlast hends))
      rw [hspace]
      rintro d ⟨⟩
      exact .inl rfl
  | case7 cs body hbody hskip inside hle hopen hnone after hle' hinstruction hlt last hle'' hlast
      ih =>
      cases h
      have hspace : (skipSpace cs).1 = '<' :: '?' :: inside :=
        (congrArg Subtype.val hskip).trans (eq_append_of_after? hopen)
      refine (hspace ▸ Item.readsTexts_skipSpace cs more ?_).trans
        ((Item.readsTexts_instruction hinstruction more).trans (ih hlast hends))
      rw [hspace]
      rintro d ⟨⟩
      exact .inl rfl
  | case9 cs body hbody hskip _ _ =>
      cases h
      obtain rfl : (skipSpace cs).1 = body := congrArg Subtype.val hskip
      exact Item.readsTexts_skipSpace cs more hends
  | _ => cases h

/-- Comments, instructions and spaces stand in front of what is left of a text. -/
def Skips (cs rest : List Char) : Prop := ∃ hle, skipMisc cs = .ok ⟨rest, hle⟩

/-- A text is an element with nothing but comments, instructions and spaces around it. -/
def ReadsAlone (cs : List Char) (item : Item) : Prop :=
  ∃ body after, Skips cs ('<' :: body) ∧ Reads (Item.readElement {} [] body) item after ∧
    Skips after []

/-- Between the tags of another element the same element is read, among texts. -/
theorem ReadsAlone.enclosed {cs : List Char} {item : Item} (h : ReadsAlone cs item)
    (closing : List Char) :
    ∃ front back : List (List Char),
      Reads (Item.readContent {} [] (cs ++ '<' :: '/' :: closing))
        (front.map .text ++ item :: back.map .text) ('<' :: '/' :: closing) := by
  obtain ⟨body, after, ⟨hle, hfront⟩, ⟨hlt, helement⟩, hle', hback⟩ := h
  have hclose : Reads (Item.readContent {} [] ('<' :: '/' :: closing)) []
      ('<' :: '/' :: closing) := ⟨Nat.le_refl _, by rw [Item.readContent]⟩
  have hends : ∀ {rest : List Char}, ∀ d, ('<' :: rest).head? = some d → d = '<' ∨ d = '&' :=
    fun d hd => .inl (Option.some.inj hd).symm
  obtain ⟨back, hback⟩ : Item.ReadsTexts {} [] (after ++ '<' :: '/' :: closing)
    ([] ++ '<' :: '/' :: closing) := readsTexts_skipMisc hback hends
  obtain ⟨front, hfront⟩ : Item.ReadsTexts {} [] (cs ++ '<' :: '/' :: closing)
    ('<' :: body ++ '<' :: '/' :: closing) := readsTexts_skipMisc hfront hends
  have htail := hback hclose
  rw [List.append_nil] at htail
  exact ⟨front, back, hfront (readContent_element (Item.exists_cons_of_readElement helement _)
    ((Item.readsFollowed {} [] body).element helement _) htail)⟩

/-- No byte order mark, declaration or document type stands in front of the first element. -/
def Bare (text : String) : Prop :=
  ∃ c rest, isNameStart c = true ∧ Skips (normalizeLines text.toList) ('<' :: c :: rest)

variable {text : String} {source : Source}

theorem Bare.dropMark (h : Bare text) : dropMark text.toList = text.toList := by
  obtain ⟨c, rest, -, hskips⟩ := h
  unfold Source.dropMark
  split
  · rename_i heq
    rw [heq, normalizeLines_cons (by decide)] at hskips
    obtain ⟨hle, hskips⟩ := hskips
    rw [skipMisc] at hskips
    cases hskips
  · rfl

/-- A declaration is not skipped. -/
theorem not_skips_declaration {cs rest : List Char} (hspace : startsWithSpace cs = true) :
    ¬ Skips ("<?xml".toList ++ cs) rest := by
  have hends : ∀ c, cs.head? = some c → isNameChar c = false := by
    intro c hc
    have hc : isSpace c = true := by simpa [startsWithSpace, hc] using hspace
    refine isNameChar_mark ?_
    simp only [isSpace, Bool.or_eq_true, beq_iff_eq] at hc
    rcases hc with ((rfl | rfl) | rfl) | rfl <;> decide
  obtain ⟨hlt, hname⟩ : Reads (simpleName ("xml".toList ++ cs)) "xml".toList cs :=
    reads_simpleName (by decide) hends
  have hreserved : instruction ("xml".toList ++ cs) = .error .invalidToken := by
    rw [instruction, hname]
    rfl
  have hcomment : after? ['<', '!', '-', '-'] ('<' :: '?' :: ("xml".toList ++ cs)) = none := rfl
  have hskip : skipSpace ('<' :: '?' :: ("xml".toList ++ cs)) = ⟨_, Nat.le_refl _⟩ :=
    Item.skipSpace_of_head (by rintro d ⟨⟩; rfl)
  obtain ⟨hle', hopen⟩ : ∃ hle, after? ['<', '?'] ('<' :: '?' :: ("xml".toList ++ cs)) =
    some ⟨"xml".toList ++ cs, hle⟩ := after?_append ['<', '?'] ("xml".toList ++ cs)
  have hsplit : "<?xml".toList ++ cs = '<' :: '?' :: ("xml".toList ++ cs) := rfl
  rw [hsplit]
  rintro ⟨hle, hskips⟩
  rw [skipMisc, hskip] at hskips
  dsimp only at hskips
  rw [hcomment, hopen] at hskips
  dsimp only at hskips
  rw [hreserved] at hskips
  cases hskips

theorem Bare.prolog (h : Bare text) :
    prolog (normalizeLines text.toList) = .ok ({}, normalizeLines text.toList) := by
  obtain ⟨c, rest, -, hskips⟩ := h
  rw [Source.prolog]
  split
  · rfl
  · rename_i after hle hopen
    split
    · rename_i hspace
      rw [eq_append_of_after? hopen] at hskips
      exact absurd hskips (not_skips_declaration hspace)
    · rfl

/-- A bare document is an element alone, and its root is what that element resolves to. -/
theorem Bare.ofText_inv (h : Bare text) (hread : ofText text = .ok source) :
    AllLegal (normalizeLines text.toList) ∧
      ∃ item resolved others, ReadsAlone (normalizeLines text.toList) item ∧
        resolve Scope.initial [item] = .ok resolved ∧ resolved.nodes = source.root :: others := by
  unfold ofText at hread
  rw [h.dropMark] at hread
  dsimp only at hread
  split at hread
  · cases hread
  · rename_i hlegal
    refine ⟨allLegal_iff_all.mpr (by simpa using hlegal), ?_⟩
    rw [h.prolog] at hread
    dsimp only at hread
    obtain ⟨c, rest, hc, hle, hskips⟩ := h
    rw [documentType, hskips] at hread
    dsimp only at hread
    rw [after?_doctype_element hc] at hread
    dsimp only at hread
    split at hread
    · cases hread
    · rename_i item hitem
      split at hread
      · cases hread
      · rename_i resolved hresolved
        split at hread
        · rename_i root others hroot
          cases hread
          obtain ⟨after, helement, hback⟩ := rootItem_inv hitem
          exact ⟨item, resolved, others, ⟨c :: rest, after, ⟨hle, hskips⟩, helement, hback⟩,
            hresolved, hroot⟩
        · cases hread

end Source

end Cuesheet.Xml
