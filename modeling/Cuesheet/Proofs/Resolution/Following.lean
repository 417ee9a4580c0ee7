import Cuesheet.Proofs.Resolution.Nesting

/-!
# Runs that differ in repeated ends

One run follows another if it comes to the same while the other has noted some ends again
(`Repeats`), as the end of a container is that of something in it. Both then find the same latest
end (`Repeats.latest?`), if `lt` orders the ends that are noted. A container without attributes is
followed by its children in the place of it (`container_follows_children`).
-/

namespace Cuesheet

open TimeScalar (Ordered Holds laterEnd)

variable {T : Type}

/-! ## Repeated ends -/

/-- Some times, and the same times where some are noted again. -/
inductive Repeats : List T → List T → Prop
  | nil : Repeats [] []
  | note {ends ends' : List T} (t : T) (before : Repeats ends ends') :
      Repeats (ends ++ [t]) (ends' ++ [t])
  | again {ends ends' : List T} {t : T} (before : Repeats ends ends') (noted : t ∈ ends') :
      Repeats (ends ++ [t]) ends'

namespace Repeats

variable {ends ends' : List T}

theorem append (h : Repeats ends ends') (new : List T) : Repeats (ends ++ new) (ends' ++ new) := by
  induction new using List.reverseRecOn with
  | nil =>
      rw [List.append_nil, List.append_nil]
      exact h
  | append_singleton new t ih =>
      rw [← List.append_assoc, ← List.append_assoc]
      exact .note t ih

theorem refl : ∀ ends : List T, Repeats ends ends := fun ends => Repeats.nil.append ends

theorem subset (h : Repeats ends ends') : ends ⊆ ends' := by
  induction h with
  | nil => exact List.Subset.refl _
  | note t _ ih => exact List.append_subset.mpr ⟨List.subset_append_of_subset_left _ ih, by simp⟩
  | again _ noted ih => exact List.append_subset.mpr ⟨ih, by simpa using noted⟩

theorem superset (h : Repeats ends ends') : ends' ⊆ ends := by
  induction h with
  | nil => exact List.Subset.refl _
  | note t _ ih => exact List.append_subset.mpr ⟨List.subset_append_of_subset_left _ ih, by simp⟩
  | again _ _ ih => exact List.subset_append_of_subset_left _ ih

/-- What is noted again does not change the latest end. -/
theorem latest? [TimeScalar T] {p : T → Prop} (hp : Ordered p) (h : Repeats ends ends')
    (hends : ∀ t ∈ ends, p t) : TimeScalar.latest? ends' = TimeScalar.latest? ends := by
  induction h with
  | nil => rfl
  | note t _ ih =>
      rw [TimeScalar.latest?_concat, TimeScalar.latest?_concat,
        ih fun t ht => hends t (List.mem_append_left _ ht)]
  | @again ends ends' t before noted ih =>
      have hbefore : ∀ t ∈ ends, p t := fun t ht => hends t (List.mem_append_left _ ht)
      rw [TimeScalar.latest?_again hp hbefore (before.superset noted), ih hbefore]

end Repeats

namespace Attempt

variable {α β γ δ : Type} {p : T → Prop}

/-! ## Following -/

/-- Two drafts that differ in repeated ends. -/
def Echoes (draft draft' : Draft T) : Prop :=
  ∃ ends, draft' = { draft with ends } ∧ Repeats draft.ends ends

/-- Where a step succeeds and notes only times with a property, another one succeeds from a draft
that differs in repeated ends, and what they come to is related. -/
def Follows (p : T → Prop) (m : Attempt T α) (m' : Attempt T β) (R : α → β → Prop) : Prop :=
  ∀ ⦃draft draft' after : Draft T⦄ ⦃a : α⦄, Echoes draft draft' → m draft = .ok (a, after) →
    (∀ t ∈ after.ends, p t) →
      ∃ b after', m' draft' = .ok (b, after') ∧ Echoes after after' ∧ R a b

/-- A step takes back no end. -/
def Grows (m : Attempt T α) : Prop :=
  ∀ ⦃draft after : Draft T⦄ ⦃a : α⦄, m draft = .ok (a, after) → draft.ends ⊆ after.ends

theorem Blind.grows {m : Attempt T α} (h : Blind m) : Grows m := by
  intro draft after a hm
  obtain ⟨new, hok⟩ := h.ok hm
  rw [(hok []).2]
  exact List.subset_append_left _ _

theorem Blind.follows {m : Attempt T α} (h : Blind m) : Follows p m m Eq := by
  rintro draft _ after a ⟨ends, rfl, hends⟩ hm -
  obtain ⟨new, hok⟩ := h.ok hm
  obtain ⟨happly, hafter⟩ := hok ends
  refine ⟨a, _, happly, ⟨ends ++ new, rfl, ?_⟩, rfl⟩
  rw [hafter]
  exact hends.append new

theorem Local.grows {m : Attempt T α} (h : Local m) : Grows m := h.blind.grows

theorem Local.follows {m : Attempt T α} (h : Local m) : Follows p m m Eq := h.blind.follows

theorem Blind.thenPure {m : Attempt T α} (h : Blind m) (f : α → β) :
    Blind (m >>= fun a => Pure.pure (f a)) := h.bind fun _ => (Local.pure _).blind

theorem Local.thenPure {m : Attempt T α} (h : Local m) (f : α → β) :
    Local (m >>= fun a => Pure.pure (f a)) := h.bind fun _ => .pure _

namespace Follows

variable {m : Attempt T α} {m' : Attempt T β} {R : α → β → Prop} {S : γ → δ → Prop}

theorem pure {a : α} {b : β} (h : R a b) :
    Follows p (pure a : Attempt T α) (pure b : Attempt T β) R := by
  intro draft draft' after a' hechoes hm _
  cases hm
  exact ⟨b, draft', rfl, hechoes, h⟩

theorem bind {f : α → Attempt T γ} {f' : β → Attempt T δ} (h : Follows p m m' R)
    (hgrows : ∀ a, Grows (f a)) (hf : ∀ a b, R a b → Follows p (f a) (f' b) S) :
    Follows p (m >>= f) (m' >>= f') S := by
  intro draft draft' after c hechoes hm hp
  obtain ⟨a, between, hm, hfa⟩ := bind_ok hm
  obtain ⟨b, between', hm', hechoes', hR⟩ := h hechoes hm fun t ht => hp t (hgrows a hfa ht)
  obtain ⟨d, after', hfb, hechoes'', hR'⟩ := hf a b hR hechoes' hfa hp
  exact ⟨d, after', (bind_of_ok hm').trans hfb, hechoes'', hR'⟩

/-- What a step is known to come to can be used. -/
theorem knowing {q : α → Prop} (h : Follows p m m' R)
    (hq : ∀ ⦃draft after a⦄, m draft = .ok (a, after) → (∀ t ∈ after.ends, p t) → q a) :
    Follows p m m' fun a b => R a b ∧ q a := by
  intro draft draft' after a hechoes hm hp
  obtain ⟨b, after', hm', hechoes', hR⟩ := h hechoes hm hp
  exact ⟨b, after', hm', hechoes', hR, hq hm hp⟩

theorem mono {S : α → β → Prop} (h : Follows p m m' R) (hR : ∀ a b, R a b → S a b) :
    Follows p m m' S := by
  intro draft draft' after a hechoes hm hp
  obtain ⟨b, after', hm', hechoes', hab⟩ := h hechoes hm hp
  exact ⟨b, after', hm', hechoes', hR a b hab⟩

end Follows

variable [TimeScalar T] {setting : Setting T} {around around' : Surroundings T} {el : Element}
  {children : List Element} {draft draft' : Draft T}

/-! ## Ends that were noted -/

theorem component_noted {cursor : T} {c : Component T}
    (h : component setting around cursor el draft = .ok (c, draft')) :
    ∀ t, c.stop = some t → t ∈ draft'.ends := by
  obtain ⟨_, _, _, -, -, -, hends⟩ := component_spec h
  intro t ht
  simp [hends, ht]

theorem container_noted {cursor : T} {found : List (Component T)} {stop : Option T}
    (h : container setting around cursor el draft = .ok ((found, stop), draft')) :
    ∀ t, stop = some t → t ∈ draft'.ends := by
  obtain ⟨_, _, _, _, _, _, after, -, -, -, -, -, hdraft⟩ := container_spec h
  intro t ht
  simp [hdraft, ht]

/-- The latest end of the children so far was noted, and so was the cursor if they are in a
sequence. -/
def Noted (flow : Flow) (cursor : T) (latest : Option T) (ends : List T) : Prop :=
  ∀ t, latest = some t → t ∈ ends ∧ (flow = .sequence → cursor ∈ ends)

theorem Noted.step {flow : Flow} {cursor : T} {latest stop : Option T} {ends ends' : List T}
    (h : Noted flow cursor latest ends) (hends : ends ⊆ ends') (hstop : Holds (· ∈ ends') stop) :
    Noted flow (advance flow cursor stop) (laterEnd latest stop) ends' := by
  have hbefore : Noted flow cursor latest ends' := fun t ht =>
    ⟨hends (h t ht).1, fun hflow => hends ((h t ht).2 hflow)⟩
  cases stop with
  | none => rwa [TimeScalar.laterEnd_none]
  | some s =>
      have hs : s ∈ ends' := hstop s rfl
      intro t ht
      refine ⟨?_, ?_⟩
      · rcases TimeScalar.laterEnd_cases latest (some s) with heq | heq <;> rw [heq] at ht
        · exact (hbefore t ht).1
        · exact Option.some.inj ht ▸ hs
      · rintro rfl
        exact hs

/-- The latest end of all children was noted. Without one the cursor has not moved. -/
theorem contained_noted {cursor : T} {latest : Option T} {placed : Placed T}
    (h : contained setting around cursor latest children draft = .ok (placed, draft'))
    (hbefore : Noted around.flow cursor latest draft.ends) :
    Noted around.flow placed.cursor placed.latest draft'.ends ∧
      (placed.latest = none → latest = none ∧ placed.cursor = cursor) := by
  induction children generalizing cursor latest placed draft draft' with
  | nil =>
      rw [contained] at h
      cases h
      exact ⟨hbefore, fun hnone => ⟨hnone, rfl⟩⟩
  | cons child rest ih =>
      -- a child with its end, then the rest
      have hstep : ∀ {stop : Option T} {between : Draft T} {placed : Placed T},
          draft.ends ⊆ between.ends → Holds (· ∈ between.ends) stop →
          contained setting around (advance around.flow cursor stop) (laterEnd latest stop) rest
            between = .ok (placed, draft') →
          Noted around.flow placed.cursor placed.latest draft'.ends ∧
            (placed.latest = none → latest = none ∧ placed.cursor = cursor) := by
        intro stop between placed hends hstop hrest
        obtain ⟨hnoted, hopen⟩ := ih hrest (hbefore.step hends hstop)
        refine ⟨hnoted, fun hnone => ?_⟩
        obtain ⟨hlatest, hcursor⟩ := hopen hnone
        cases stop with
        | none => exact ⟨(TimeScalar.laterEnd_none latest).symm.trans hlatest, hcursor⟩
        | some s => cases latest <;> cases hlatest
      rw [contained] at h
      split at h
      · obtain ⟨⟨found, stop⟩, between, hchild, h⟩ := bind_ok h
        obtain ⟨placed, after, hrest, h⟩ := bind_ok h
        cases h
        have hnoted := hstep ((container_local setting around cursor child).grows hchild)
          (container_noted hchild) hrest
        exact hnoted
      · split at h
        · exact ih h hbefore
        · obtain ⟨c, between, hchild, h⟩ := bind_ok h
          obtain ⟨placed, after, hrest, h⟩ := bind_ok h
          cases h
          have hnoted := hstep ((component_local setting around cursor child).grows hchild)
            (component_noted hchild) hrest
          exact hnoted

/-! ## The same children elsewhere -/

/-- The latest end of some children behind others whose latest end is `before`. In a sequence it
only matters whether there is one. -/
def Joins (flow : Flow) (before latest latest' : Option T) : Prop :=
  match flow with
  | .stack => latest' = laterEnd before latest
  | .sequence => latest'.isSome = (before.isSome || latest.isSome)

theorem Joins.refl (flow : Flow) (latest : Option T) : Joins flow none latest latest := by
  cases flow <;> rfl

theorem Joins.start (flow : Flow) (before : Option T) : Joins flow before none before := by
  cases flow
  · exact (Bool.or_false _).symm
  · exact (TimeScalar.laterEnd_none before).symm

theorem Joins.step (hp : Ordered p) {flow : Flow} {before latest latest' stop : Option T}
    (h : Joins flow before latest latest') (hbefore : Holds p before) (hlatest : Holds p latest)
    (hstop : Holds p stop) :
    Joins flow before (laterEnd latest stop) (laterEnd latest' stop) := by
  cases flow with
  | stack =>
      obtain rfl : latest' = laterEnd before latest := h
      exact TimeScalar.laterEnd_assoc hp hbefore hlatest hstop
  | sequence =>
      show (laterEnd latest' stop).isSome = (before.isSome || (laterEnd latest stop).isSome)
      rw [TimeScalar.isSome_laterEnd, TimeScalar.isSome_laterEnd, show latest'.isSome = _ from h,
        Bool.or_assoc]

/-- The same components, at the same cursor in a sequence, behind children whose latest end is
`before`. -/
structure Placed.Joined (flow : Flow) (before : Option T) (placed placed' : Placed T) : Prop where
  components : placed'.components = placed.components
  cursor : flow = .sequence → placed'.cursor = placed.cursor
  latest : Joins flow before placed.latest placed'.latest

theorem Placed.Joined.implicitEnd {flow : Flow} {placed placed' : Placed T}
    (h : Placed.Joined flow none placed placed') :
    placed'.implicitEnd flow = placed.implicitEnd flow := by
  unfold Placed.implicitEnd
  cases flow with
  | stack => exact h.latest
  | sequence =>
      have hsome : placed'.latest.isSome = placed.latest.isSome := h.latest
      rw [h.cursor rfl]
      cases hlatest : placed.latest <;> cases hlatest' : placed'.latest <;>
        rw [hlatest, hlatest'] at hsome <;> first | rfl | cases hsome

/-- Children come to the same in alike surroundings, and behind other children. -/
theorem contained_joined (hp : Ordered p) (h : around.Alike around') {before : Option T}
    (hbefore : Holds p before) (children : List Element) {cursor cursor' : T}
    {latest latest' : Option T} (hcursor : around.flow = .sequence → cursor' = cursor)
    (hlatest : Holds p latest) (hjoins : Joins around.flow before latest latest') :
    Follows p (contained setting around cursor latest children)
      (contained setting around' cursor' latest' children)
      (Placed.Joined around.flow before) := by
  induction children generalizing cursor cursor' latest latest' with
  | nil =>
      rw [contained, contained]
      exact .pure ⟨rfl, hcursor, hjoins⟩
  | cons child rest ih =>
      have hrest : ∀ {stop : Option T} (front : List (Component T)), Holds p stop →
          Follows p
            (contained setting around (advance around.flow cursor stop) (laterEnd latest stop)
              rest >>= fun placed => Pure.pure (placed.after front))
            (contained setting around' (advance around'.flow cursor' stop)
              (laterEnd latest' stop) rest >>= fun placed => Pure.pure (placed.after front))
            (Placed.Joined around.flow before) := by
        intro stop front hstop
        refine (ih ?_ (hlatest.laterEnd hstop) (hjoins.step hp hbefore hlatest hstop)).bind
          (fun _ => (Local.pure _).grows) fun placed placed' hjoined => ?_
        · intro hflow
          rw [h.flow, hcursor hflow]
        · refine .pure ⟨?_, hjoined.cursor, hjoined.latest⟩
          show front ++ placed'.components = front ++ placed.components
          rw [hjoined.components]
      have hgrows : ∀ (stop : Option T) (front : List (Component T)), Grows
          (contained setting around (advance around.flow cursor stop) (laterEnd latest stop)
            rest >>= fun placed => Pure.pure (placed.after front)) :=
        fun stop front => ((contained_local setting around _ _ rest).thenPure _).grows
      rw [contained, contained]
      split
      · rw [h.container hcursor]
        refine ((container_local setting around cursor child).follows.knowing
          fun _ _ _ hok hends t ht => hends t (container_noted hok t ht)).bind
          (fun r => hgrows r.2 r.1) ?_
        rintro ⟨found, stop⟩ _ ⟨rfl, hstop⟩
        exact hrest found hstop
      · split
        · exact ih hcursor hlatest hjoins
        · rw [h.component hcursor]
          refine ((component_local setting around cursor child).follows.knowing
            fun _ _ _ hok hends t ht => hends t (component_noted hok t ht)).bind
            (fun c => hgrows c.stop [c]) ?_
          rintro c _ ⟨rfl, hstop⟩
          exact hrest [c] hstop

/-! ## Children in the place of their container -/

omit [TimeScalar T] in
theorem Noted.implicitEnd {flow : Flow} {placed : Placed T} {ends : List T}
    (h : Noted flow placed.cursor placed.latest ends) : Holds (· ∈ ends) (placed.implicitEnd flow) := by
  intro t ht
  cases hlatest : placed.latest with
  | none => cases flow <;> simp [Placed.implicitEnd, hlatest] at ht
  | some s =>
      obtain ⟨hs, hcursor⟩ := h s hlatest
      cases flow with
      | sequence =>
          simp only [Placed.implicitEnd, hlatest, Option.some.injEq] at ht
          exact ht ▸ hcursor rfl
      | stack =>
          simp only [Placed.implicitEnd, hlatest, Option.some.injEq] at ht
          exact ht ▸ hs

/-- A container with a tag and no attributes passes on what it takes over: a stack in a stack, or a
sequence in a sequence whose children last as long as usual. -/
def Surroundings.Suits (around : Surroundings T) (tag : String) : Prop :=
  flowOf tag = around.flow ∧
    (around.flow = .sequence → around.defaultChild = TimeScalar.one)

theorem Surroundings.Suits.alike {tag : String} (h : around.Suits tag) (cursor : T) :
    (around.inside tag (around.ownBase cursor)).Alike around where
  flow := h.1.symm
  base hflow := by
    have hstack : around.flow = .stack := h.1.symm.trans hflow
    show around.base = around.ownBase cursor
    rw [Surroundings.ownBase, hstack]
  styles child := (cascade_cascade_none around.styles child).symm
  markup child := (cascade_cascade_none around.markup child).symm
  defaultChild hflow := h.2 (h.1.symm.trans hflow)
  place := rfl

/-- A container without attributes is followed by its children in its place. -/
theorem container_follows_children (hp : Ordered p) {cursor : T} {latest : Option T}
    {tag text : String} (hsuits : around.Suits tag) (hlatest : Holds p latest) :
    Follows p (container setting around cursor ⟨tag, [], children, text⟩)
      (contained setting around cursor latest children) fun found placed' =>
        placed'.components = found.1 ∧
          (around.flow = .sequence → placed'.cursor = advance around.flow cursor found.2) ∧
          Joins around.flow none (laterEnd latest found.2) placed'.latest := by
  rintro draft draft' after ⟨found, stop⟩ hechoes hm hends
  rw [container_bare] at hm
  obtain ⟨placed, between, hplaced, hm⟩ := bind_ok hm
  obtain ⟨_, noted, hnote, hm⟩ := bind_ok hm
  cases hm
  cases noteEnd_ok hnote
  have hflow : flowOf tag = around.flow := hsuits.1
  have hbase : around.flow = .sequence → around.ownBase cursor = cursor := by
    intro hsequence
    rw [Surroundings.ownBase, hsequence]
  obtain ⟨hnoted, hopen⟩ := contained_noted hplaced (by nofun)
  obtain ⟨placed', after', hplaced', ⟨ends, rfl, hrepeats⟩, hjoined⟩ :=
    contained_joined hp (hsuits.alike cursor) hlatest children
      (fun hsequence => (hbase (hflow.symm.trans hsequence)).symm) TimeScalar.holds_none
      (Joins.start _ latest) hechoes hplaced fun t ht => hends t (List.mem_append_left _ ht)
  have hends' := hnoted.implicitEnd
  simp only [Surroundings.inside, hflow] at hjoined hends' ⊢
  refine ⟨placed', _, hplaced', ⟨ends, rfl, ?_⟩, hjoined.components, fun hsequence => ?_, ?_⟩
  · cases hstop : placed.implicitEnd around.flow with
    | none => simpa only [Option.toList_none, List.append_nil] using hrepeats
    | some t => exact .again hrepeats (hrepeats.subset (hends' t hstop))
  · rw [hjoined.cursor hsequence, hsequence]
    cases hlast : placed.latest with
    | none =>
        rw [(hopen hlast).2]
        simp only [Placed.implicitEnd, hlast, advance, Surroundings.inside, hbase hsequence]
    | some t => simp only [Placed.implicitEnd, hlast, advance]
  · have hjoins := hjoined.latest
    cases hcase : around.flow with
    | stack =>
        rw [hcase] at hjoins
        exact hjoins
    | sequence =>
        rw [hcase] at hjoins
        show placed'.latest.isSome = _
        rw [show placed'.latest.isSome = _ from hjoins, TimeScalar.isSome_laterEnd]
        cases hlast : placed.latest <;> simp [Placed.implicitEnd, hlast]

end Attempt

end Cuesheet
