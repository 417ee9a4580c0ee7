import Cuesheet.Proofs.Resolution.Formed
import Cuesheet.Proofs.Resolution.Nesting
import Cuesheet.Proofs.Time.Rising

/-!
# Children of sequences one after the other

Where nothing says when it starts or ends, only components say how long they last, and no duration
is below zero (`Flowing`), whatever is placed starts no earlier than it is placed and ends by the
end of its container (`Spans`): stacks end with the last of their children, and the cursor of a
sequence does not go back. So the children of a sequence do not overlap (`container_followOn`).
Times only need to rise with durations (`Rising`), which doubles do unless they are minus infinity
or NaN from the start.
-/

namespace Cuesheet

open TimeScalar (Rising)

variable {T : Type} [TimeScalar T]

/-! ## Markup that flows -/

/-- What an attribute says, if it is known, is not below zero. -/
def Element.Lasts (known : Known T) (el : Element) (name : String) : Prop :=
  ∀ raw t, el.get? name = some raw → evaluateTime known raw = .ok t →
    TimeScalar.le TimeScalar.zero t = true

instance (known : Known T) (el : Element) (name : String) : Decidable (el.Lasts known name) :=
  decidable_of_iff (((el.get? name).all fun raw => (evaluateTime known raw).toOption.all fun t =>
      TimeScalar.le TimeScalar.zero t) = true) <| by
    unfold Element.Lasts
    cases el.get? name with
    | none => exact iff_of_true rfl nofun
    | some raw =>
        cases hvalue : evaluateTime known raw with
        | error stop =>
            refine iff_of_true ?_ ?_
            · rw [Option.all_some, hvalue]
              rfl
            · rintro _ t ⟨⟩ ht
              rw [hvalue] at ht
              cases ht
        | ok t =>
            rw [Option.all_some, hvalue]
            refine ⟨fun h => ?_, fun h => h raw t rfl hvalue⟩
            rintro _ t' ⟨⟩ ht
            cases hvalue.symm.trans ht
            exact h

/-- In a tree of containers and components nothing says when it starts or ends, only components say
how long they last, and no duration is below zero. -/
inductive Flowing (known : Known T) : Element → Prop
  | component {el : Element} (tag : Element.isContainerTag el.tag = false)
      (start : el.get? "start" = none) (stop : el.get? "end" = none)
      (duration : el.Lasts known "duration") : Flowing known el
  | container {el : Element} (tag : Element.isContainerTag el.tag = true)
      (start : el.get? "start" = none) (stop : el.get? "end" = none)
      (duration : el.get? "duration" = none)
      (defaultChild : el.Lasts known "default-child-duration")
      (defaultChild' : el.Lasts known "defaultChildDuration")
      (children : ∀ child ∈ el.children, Attempt.IsPlaced child → Flowing known child) :
      Flowing known el

theorem Flowing.start {known : Known T} {el : Element} (h : Flowing known el) :
    el.get? "start" = none := by
  cases h <;> assumption

theorem Flowing.stop {known : Known T} {el : Element} (h : Flowing known el) :
    el.get? "end" = none := by
  cases h <;> assumption

/-! ## What is placed -/

namespace Attempt

/-- What a child of a container comes to, and its end. -/
def member (setting : Setting T) (around : Surroundings T) (cursor : T) (el : Element) :
    Attempt T (List (Component T) × Option T) :=
  if Element.isContainerTag el.tag then container setting around cursor el
  else do
    let c ← component setting around cursor el
    return ([c], c.stop)

variable {setting : Setting T} {around : Surroundings T} {cursor : T} {latest : Option T}
  {el child : Element} {rest : List Element}

theorem contained_placed (h : IsPlaced child) :
    contained setting around cursor latest (child :: rest) = (do
      let (found, stop) ← member setting around cursor child
      let placed ← contained setting around (advance around.flow cursor stop)
        (TimeScalar.laterEnd latest stop) rest
      return placed.after found) := by
  rw [contained, member]
  split
  · rfl
  · rename_i htag
    rw [if_neg (Bool.eq_false_iff.mp (h.resolve_left htag))]
    simp only [bind_assoc, pure_bind]
    rfl

theorem contained_skipped (h : ¬ IsPlaced child) :
    contained setting around cursor latest (child :: rest) =
      contained setting around cursor latest rest := by
  obtain ⟨htag, hstructural⟩ := not_or.mp h
  rw [contained, if_neg htag, if_pos (Bool.eq_true_of_not_eq_false hstructural)]

/-- What children of a container that are placed come to among the others. -/
def ComesTo (setting : Setting T) (around : Surroundings T) (el : Element)
    (found : List (Component T)) : Prop :=
  (IsPlaced el ∧ ∃ cursor stop draft draft',
    member setting around cursor el draft = .ok ((found, stop), draft')) ∨
    ¬ IsPlaced el ∧ found = []

/-! ## Windows -/

variable {draft draft' : Draft T}

theorem evaluate_ok {raw : String} {t : T} (h : evaluate setting raw draft = .ok (t, draft')) :
    evaluateTime (knownNow setting draft) raw = .ok t ∧ draft' = draft := by
  rw [evaluate_apply] at h
  cases hvalue : evaluateTime (knownNow setting draft) raw with
  | error stop => rw [hvalue] at h; cases h
  | ok t' => rw [hvalue] at h; cases h; exact ⟨rfl, rfl⟩

theorem time?_ok {name : String} {o : Option T}
    (h : time? setting el name draft = .ok (o, draft')) :
    draft' = draft ∧ (o = none ∧ el.get? name = none ∨ ∃ raw t, o = some t ∧
      el.get? name = some raw ∧ evaluateTime (knownNow setting draft) raw = .ok t) := by
  unfold time? at h
  cases hget : el.get? name with
  | none => rw [hget] at h; cases h; exact ⟨rfl, .inl ⟨rfl, rfl⟩⟩
  | some raw =>
      rw [hget] at h
      obtain ⟨t, between, hvalue, h⟩ := bind_ok h
      cases h
      obtain ⟨hvalue, rfl⟩ := evaluate_ok hvalue
      exact ⟨rfl, .inr ⟨raw, t, rfl, rfl, hvalue⟩⟩

/-- Where nothing says when it starts or ends, an element starts where it is placed, and ends after
the duration that it gives. -/
theorem window_flowing {base start : T} {explicit : Option T} (hstart : el.get? "start" = none)
    (hstop : el.get? "end" = none)
    (h : window setting el base draft = .ok ((start, explicit), draft')) :
    start = base ∧ draft' = draft ∧ (explicit = none ∧ el.get? "duration" = none ∨ ∃ raw d,
      el.get? "duration" = some raw ∧ evaluateTime (knownNow setting draft) raw = .ok d ∧
        explicit = some (TimeScalar.add base d)) := by
  simp only [window, place?, hstart, hstop, pure_bind, Option.getD_none] at h
  obtain ⟨duration, between, hduration, h⟩ := bind_ok h
  obtain ⟨rfl, ⟨rfl, hnone⟩ | ⟨raw, d, rfl, hget, hvalue⟩⟩ := time?_ok hduration
  · cases h
    exact ⟨rfl, rfl, .inl ⟨rfl, hnone⟩⟩
  · cases h
    exact ⟨rfl, rfl, .inr ⟨raw, d, hget, hvalue, rfl⟩⟩

theorem surroundingsOf_lasts {start : T} {inner : Surroundings T}
    (hunit : TimeScalar.le (TimeScalar.zero : T) TimeScalar.one = true)
    (hdefault : el.Lasts (knownNow setting draft) "default-child-duration")
    (hdefault' : el.Lasts (knownNow setting draft) "defaultChildDuration")
    (h : surroundingsOf setting around start el draft = .ok (inner, draft')) :
    TimeScalar.le TimeScalar.zero inner.defaultChild = true := by
  obtain ⟨styles, _, hstyles, h⟩ := bind_ok h
  obtain ⟨markup, _, hmarkup, h⟩ := bind_ok h
  obtain ⟨defaultChild, _, hchild, h⟩ := bind_ok h
  cases h
  cases ofExcept_ok hmarkup
  cases ofExcept_ok hstyles
  obtain ⟨first, _, hfirst, hchild⟩ := bind_ok hchild
  obtain ⟨rfl, ⟨rfl, -⟩ | ⟨raw, t, rfl, hget, hvalue⟩⟩ := time?_ok hfirst
  · obtain ⟨second, _, hsecond, hchild⟩ := bind_ok hchild
    cases hchild
    obtain ⟨rfl, ⟨rfl, -⟩ | ⟨raw, t, rfl, hget, hvalue⟩⟩ := time?_ok hsecond
    · exact hunit
    · exact hdefault' raw t hget hvalue
  · cases hchild
    exact hdefault raw _ hget hvalue

/-! ## Spans -/

/-- Components that start no earlier than they are placed and have ended by an end. -/
structure Spans (p : T → Prop) (r : T → T → Prop) (start : T) (found : List (Component T))
    (stop : Option T) : Prop where
  starts : ∀ c ∈ found, ∃ s, c.start = some s ∧ p s ∧ r start s
  ends : ∀ c ∈ found, ∀ t, c.stop = some t → p t ∧ ∃ e, stop = some e ∧ r t e
  last : ∀ e, stop = some e → p e ∧ r start e

/-- No component of the first ones has its end after the start of one of the second ones. -/
def Apart (r : T → T → Prop) (before after : List (Component T)) : Prop :=
  ∀ c₁ ∈ before, ∀ c₂ ∈ after, ∀ t s, c₁.stop = some t → c₂.start = some s → r t s

/-- Components in a sequence that lie between where its cursor was and where it is then. Where one
of them ends, the sequence has an end. -/
structure Chain (p : T → Prop) (r : T → T → Prop) (cursor : T) (latest : Option T)
    (placed : Placed T) : Prop where
  here : p placed.cursor
  forward : r cursor placed.cursor
  starts : ∀ c ∈ placed.components, ∃ s, c.start = some s ∧ p s ∧ r cursor s
  ends : ∀ c ∈ placed.components, ∀ t, c.stop = some t →
    p t ∧ r t placed.cursor ∧ placed.latest.isSome = true
  latest : latest.isSome = true → placed.latest.isSome = true

section

variable {p : T → Prop} {r : T → T → Prop} {known : Known T} {found : List (Component T)}
  {stop : Option T} {placed : Placed T} {children : List Element}

theorem member_local (cursor : T) (el : Element) : Local (member setting around cursor el) := by
  unfold member
  split
  · exact container_local setting around cursor el
  · exact (component_local setting around cursor el).bind fun _ => .pure _

theorem component_spans (hr : Rising p r) (h : Flowing (knownNow setting draft) el)
    (htag : Element.isContainerTag el.tag = false) (hbase : p (around.ownBase cursor))
    (hdefault : TimeScalar.le TimeScalar.zero around.defaultChild = true) {c : Component T}
    (hc : component setting around cursor el draft = .ok (c, draft')) :
    Spans p r (around.ownBase cursor) [c] c.stop := by
  obtain ⟨start, explicit, between, hwindow, hstart, hstop, -⟩ := component_spec hc
  obtain ⟨rfl, -, hexplicit⟩ := window_flowing h.start h.stop hwindow
  have hlast : ∀ e, c.stop = some e → p e ∧ r (around.ownBase cursor) e := by
    intro e he
    rw [hstop] at he
    rcases hexplicit with ⟨rfl, -⟩ | ⟨raw, d, hget, hvalue, rfl⟩
    · unfold Surroundings.stopAfter at he
      cases hflow : around.flow with
      | sequence => rw [hflow] at he; cases he; exact hr.step hbase hdefault
      | stack => rw [hflow] at he; cases he
    · cases he
      cases h with
      | component _ _ _ duration => exact hr.step hbase (duration raw d hget hvalue)
      | container tag => rw [htag] at tag; cases tag
  refine ⟨fun c' hc' => ?_, fun c' hc' t ht => ?_, hlast⟩
  · rw [List.mem_singleton.mp hc']
    exact ⟨_, hstart, hbase, hr.refl hbase⟩
  · rw [List.mem_singleton.mp hc'] at ht
    obtain ⟨hpt, -⟩ := hlast t ht
    exact ⟨hpt, t, ht, hr.refl hpt⟩

/-! ## Sequences and stacks -/

/-- What the members of a container are known to come to. -/
def Spanning (setting : Setting T) (known : Known T) (p : T → Prop) (r : T → T → Prop)
    (around : Surroundings T) (children : List Element) : Prop :=
  ∀ child ∈ children, IsPlaced child → ∀ ⦃cursor draft found stop draft'⦄,
    knownNow setting draft = known → p (around.ownBase cursor) →
      member setting around cursor child draft = .ok ((found, stop), draft') →
        Spans p r (around.ownBase cursor) found stop

/-- The children of a sequence come one after the other. -/
theorem sequence_chain (hr : Rising p r) (hflow : around.flow = .sequence)
    (hmember : Spanning setting known p r around children) (hknown : knownNow setting draft = known)
    (hcursor : p cursor)
    (h : contained setting around cursor latest children draft = .ok (placed, draft')) :
    ∃ groups, placed.components = groups.flatten ∧
      List.Forall₂ (ComesTo setting around) children groups ∧ groups.Pairwise (Apart r) ∧
        Chain p r cursor latest placed := by
  induction children generalizing cursor latest draft placed with
  | nil =>
      rw [contained] at h
      cases h
      exact ⟨[], rfl, .nil, .nil, hcursor, hr.refl hcursor, nofun, nofun, id⟩
  | cons child rest ih =>
      obtain ⟨hchild, hrest⟩ := List.forall_mem_cons.mp hmember
      by_cases hplaced : IsPlaced child
      · rw [contained_placed hplaced] at h
        obtain ⟨⟨found, stop⟩, between, hfound, h⟩ := bind_ok h
        obtain ⟨placed, after, hothers, h⟩ := bind_ok h
        cases h
        have hown : around.ownBase cursor = cursor := by rw [Surroundings.ownBase, hflow]
        have hspans := hchild hplaced hknown (hown.symm ▸ hcursor) hfound
        rw [hown] at hspans
        rw [hflow] at hothers
        -- the cursor moves on to the end, if there is one
        have hnext : p (advance .sequence cursor stop) ∧ r cursor (advance .sequence cursor stop) := by
          cases stop with
          | none => exact ⟨hcursor, hr.refl hcursor⟩
          | some e => exact hspans.last e rfl
        obtain ⟨groups, hgroups, hcome, hapart, hchain⟩ :=
          ih hrest (((member_local cursor child).knownNow setting hfound).trans hknown) hnext.1
            hothers
        refine ⟨found :: groups, ?_, .cons (.inl ⟨hplaced, cursor, stop, _, _, hfound⟩) hcome,
          .cons ?_ hapart, hchain.here, ?_, ?_, ?_, ?_⟩
        · show found ++ placed.components = found ++ groups.flatten
          rw [hgroups]
        · intro group hgroup c₁ hc₁ c₂ hc₂ t s ht hs
          obtain ⟨hpt, e, rfl, hte⟩ := hspans.ends c₁ hc₁ t ht
          obtain ⟨s', hs', hps, hes⟩ :=
            hchain.starts c₂ (hgroups ▸ List.mem_flatten_of_mem hgroup hc₂)
          obtain rfl : s' = s := Option.some.inj (hs'.symm.trans hs)
          exact hr.trans hpt hnext.1 hps hte hes
        · exact hr.trans hcursor hnext.1 hchain.here hnext.2 hchain.forward
        · intro c hc
          rcases List.mem_append.mp hc with hc | hc
          · exact hspans.starts c hc
          · obtain ⟨s, hs, hps, hle⟩ := hchain.starts c hc
            exact ⟨s, hs, hps, hr.trans hcursor hnext.1 hps hnext.2 hle⟩
        · intro c hc t ht
          rcases List.mem_append.mp hc with hc | hc
          · obtain ⟨hpt, e, rfl, hte⟩ := hspans.ends c hc t ht
            refine ⟨hpt, hr.trans hpt hnext.1 hchain.here hte hchain.forward, hchain.latest ?_⟩
            rw [TimeScalar.isSome_laterEnd, Option.isSome_some, Bool.or_true]
          · exact hchain.ends c hc t ht
        · intro hsome
          refine hchain.latest ?_
          rw [TimeScalar.isSome_laterEnd, hsome, Bool.true_or]
      · rw [contained_skipped hplaced] at h
        obtain ⟨groups, hgroups, hcome, hapart, hchain⟩ := ih hrest hknown hcursor h
        exact ⟨[] :: groups, hgroups, .cons (.inr ⟨hplaced, rfl⟩) hcome,
          .cons (fun _ _ => nofun) hapart, hchain⟩

omit [TimeScalar T] in
/-- A sequence ends where its cursor is, if anything ends in it. -/
theorem Chain.spans (h : Chain p r cursor none placed) :
    Spans p r cursor placed.components (placed.implicitEnd .sequence) := by
  refine ⟨h.starts, fun c hc t ht => ?_, fun e he => ?_⟩
  · obtain ⟨hpt, hle, hsome⟩ := h.ends c hc t ht
    obtain ⟨e, he⟩ := Option.isSome_iff_exists.mp hsome
    exact ⟨hpt, placed.cursor, by simp only [Placed.implicitEnd, he], hle⟩
  · obtain rfl : placed.cursor = e := by
      unfold Placed.implicitEnd at he
      cases hlatest : placed.latest with
      | none => rw [hlatest] at he; cases he
      | some _ => rw [hlatest] at he; exact Option.some.inj he
    exact ⟨h.here, h.forward⟩

/-- The children of a stack start with it, and have ended by the latest of their ends. -/
theorem stack_spans (hr : Rising p r) (hflow : around.flow = .stack)
    (hmember : Spanning setting known p r around children) (hknown : knownNow setting draft = known)
    (hbase : p around.base) (hlatest : ∀ e, latest = some e → p e ∧ r around.base e)
    (h : contained setting around cursor latest children draft = .ok (placed, draft')) :
    Spans p r around.base placed.components placed.latest ∧
      ∀ t, latest = some t → ∃ e, placed.latest = some e ∧ r t e := by
  induction children generalizing cursor latest draft placed with
  | nil =>
      rw [contained] at h
      cases h
      exact ⟨⟨nofun, nofun, hlatest⟩, fun t ht => ⟨t, ht, hr.refl (hlatest t ht).1⟩⟩
  | cons child rest ih =>
      obtain ⟨hchild, hrest⟩ := List.forall_mem_cons.mp hmember
      by_cases hplaced : IsPlaced child
      · rw [contained_placed hplaced] at h
        obtain ⟨⟨found, stop⟩, between, hfound, h⟩ := bind_ok h
        obtain ⟨placed, after, hothers, h⟩ := bind_ok h
        cases h
        have hown : around.ownBase cursor = around.base := by rw [Surroundings.ownBase, hflow]
        have hspans := hchild hplaced hknown (hown.symm ▸ hbase) hfound
        rw [hown] at hspans
        -- the latest end so far is not before those it is the later of
        have hlater : ∀ e, TimeScalar.laterEnd latest stop = some e → p e ∧ r around.base e := by
          intro e he
          rcases TimeScalar.laterEnd_cases latest stop with hcase | hcase
          · exact hlatest e (hcase.symm.trans he)
          · exact hspans.last e (hcase.symm.trans he)
        obtain ⟨hspans', hover⟩ := ih hrest
          (((member_local cursor child).knownNow setting hfound).trans hknown) hlater hothers
        have hends : ∀ t, p t → latest = some t ∨ stop = some t →
            ∃ e, placed.latest = some e ∧ r t e := by
          intro t hpt ht
          obtain ⟨e, he, hte⟩ := hr.laterEnd (fun t ht => (hlatest t ht).1)
            (fun t ht => (hspans.last t ht).1) ht
          obtain ⟨e', he', hee'⟩ := hover e he
          exact ⟨e', he', hr.trans hpt (hlater e he).1 (hspans'.last e' he').1 hte hee'⟩
        refine ⟨⟨fun c hc => ?_, fun c hc t ht => ?_, hspans'.last⟩, fun t ht =>
          hends t (hlatest t ht).1 (.inl ht)⟩
        · exact (List.mem_append.mp hc).elim (hspans.starts c) (hspans'.starts c)
        · rcases List.mem_append.mp hc with hc | hc
          · obtain ⟨hpt, e, rfl, hte⟩ := hspans.ends c hc t ht
            have hpe := (hspans.last e rfl).1
            obtain ⟨e', he', hee'⟩ := hends e hpe (.inr rfl)
            exact ⟨hpt, e', he', hr.trans hpt hpe (hspans'.last e' he').1 hte hee'⟩
          · exact hspans'.ends c hc t ht
      · rw [contained_skipped hplaced] at h
        exact ih hrest hknown hlatest h

/-! ## Containers -/

/-- A container without times of its own places its children where it is placed, and ends when
they do. -/
theorem container_flowing (hr : Rising p r) (h : Flowing (knownNow setting draft) el)
    (htag : Element.isContainerTag el.tag = true) {components : List (Component T)}
    (hc : container setting around cursor el draft = .ok ((components, stop), draft')) :
    ∃ inner between placed after,
      surroundingsOf setting around (around.ownBase cursor) el draft = .ok (inner, between) ∧
      contained setting inner (around.ownBase cursor) none el.children between =
        .ok (placed, after) ∧
      knownNow setting between = knownNow setting draft ∧
      TimeScalar.le TimeScalar.zero inner.defaultChild = true ∧
      components = placed.components ∧ stop = placed.implicitEnd inner.flow := by
  obtain ⟨start, explicit, _, inner, between, placed, after, hwindow, hinner, hplaced, rfl, rfl,
    -⟩ := container_spec hc
  obtain ⟨rfl, rfl, hexplicit⟩ := window_flowing h.start h.stop hwindow
  cases h with
  | component tag => rw [htag] at tag; cases tag
  | container _ _ _ duration defaultChild defaultChild' _ =>
      have hnone : explicit = none := by
        rcases hexplicit with ⟨hnone, -⟩ | ⟨raw, _, hget, -⟩
        · exact hnone
        · rw [duration] at hget
          cases hget
      rw [hnone]
      exact ⟨inner, between, placed, after, hinner, hplaced,
        (surroundingsOf_local setting _ _ _).knownNow setting hinner,
        surroundingsOf_lasts hr.unit defaultChild defaultChild' hinner, rfl, rfl⟩

/-- Whatever is placed starts no earlier than it is placed, and ends by its end. -/
theorem member_spans (hr : Rising p r) (h : Flowing known el) :
    ∀ {around : Surroundings T} {cursor : T} {draft draft' : Draft T}
      {found : List (Component T)} {stop : Option T},
      TimeScalar.le TimeScalar.zero around.defaultChild = true →
      knownNow setting draft = known → p (around.ownBase cursor) →
        member setting around cursor el draft = .ok ((found, stop), draft') →
          Spans p r (around.ownBase cursor) found stop := by
  induction h with
  | @component el tag start stop duration =>
      intro around cursor draft draft' found stop hdefault hknown hbase hm
      rw [member, if_neg (Bool.eq_false_iff.mp tag)] at hm
      obtain ⟨c, between, hc, hm⟩ := bind_ok hm
      cases hm
      subst hknown
      exact component_spans hr (.component tag start ‹_› duration) tag hbase hdefault hc
  | @container el tag start stop duration defaultChild defaultChild' children ih =>
      intro around cursor draft draft' found stop hdefault hknown hbase hm
      rw [member, if_pos tag] at hm
      subst hknown
      obtain ⟨inner, between, placed, after, hinner, hplaced, hknown, hinnerDefault, rfl, rfl⟩ :=
        container_flowing hr (.container tag start ‹_› duration defaultChild defaultChild' children)
          tag hm
      have hmember : Spanning setting (knownNow setting draft) p r inner el.children :=
        fun child hchild hplaced _ _ _ _ _ hknown hbase hm =>
          ih child hchild hplaced hinnerDefault hknown hbase hm
      obtain ⟨hinnerBase, -⟩ := surroundingsOf_spec setting hinner
      cases hflow : inner.flow with
      | sequence =>
          obtain ⟨-, -, -, -, hchain⟩ := sequence_chain hr hflow hmember hknown hbase hplaced
          exact hchain.spans
      | stack =>
          rw [← hinnerBase] at hbase ⊢
          have hnone : ∀ e, (none : Option T) = some e → p e ∧ r inner.base e := nofun
          exact (stack_spans hr hflow hmember hknown hbase hnone hplaced).1

/-- What the children of a sequence come to, one group for each: no component has its end after
the start of one in a later group, none starts before the sequence, and the sequence ends after all
that end. -/
structure FollowOn (r : T → T → Prop) (start : T) (stop : Option T)
    (groups : List (List (Component T))) : Prop where
  apart : groups.Pairwise (Apart r)
  starts : ∀ group ∈ groups, ∀ c ∈ group, ∃ s, c.start = some s ∧ r start s
  ends : ∀ group ∈ groups, ∀ c ∈ group, ∀ t, c.stop = some t → ∃ e, stop = some e ∧ r t e

theorem container_followOn (hr : Rising p r) (h : Flowing (knownNow setting draft) el)
    (htag : el.tag = "sequence") {components : List (Component T)}
    (hbase : p (around.ownBase cursor))
    (hc : container setting around cursor el draft = .ok ((components, stop), draft')) :
    ∃ inner between groups,
      surroundingsOf setting around (around.ownBase cursor) el draft = .ok (inner, between) ∧
        components = groups.flatten ∧ List.Forall₂ (ComesTo setting inner) el.children groups ∧
          FollowOn r (around.ownBase cursor) stop groups := by
  have hcontainer : Element.isContainerTag el.tag = true := by rw [htag]; rfl
  obtain ⟨inner, between, placed, after, hinner, hplaced, hknown, hdefault, rfl, rfl⟩ :=
    container_flowing hr h hcontainer hc
  have hflow : inner.flow = .sequence := by
    rw [(surroundingsOf_spec setting hinner).2.1, htag]
    rfl
  have hmember : Spanning setting (knownNow setting draft) p r inner el.children := by
    cases h with
    | component tag => rw [hcontainer] at tag; cases tag
    | container _ _ _ _ _ _ children =>
        exact fun child hchild hplaced _ _ _ _ _ hknown hbase hm =>
          member_spans hr (children child hchild hplaced) hdefault hknown hbase hm
  obtain ⟨groups, hgroups, hcome, hapart, hchain⟩ :=
    sequence_chain hr hflow hmember hknown hbase hplaced
  have hspans := hchain.spans
  rw [hgroups] at hspans
  have hall : ∀ group ∈ groups, ∀ c ∈ group, c ∈ groups.flatten :=
    fun group hgroup c hc => List.mem_flatten_of_mem hgroup hc
  refine ⟨inner, between, groups, hinner, hgroups, hcome, hapart, fun group hgroup c hc => ?_,
    fun group hgroup c hc t ht => ?_⟩
  · obtain ⟨s, hs, -, hle⟩ := hspans.starts c (hall group hgroup c hc)
    exact ⟨s, hs, hle⟩
  · rw [hflow]
    exact (hspans.ends c (hall group hgroup c hc) t ht).2

omit [TimeScalar T] in
theorem FollowOn.mono {r r' : T → T → Prop} {start : T} {groups : List (List (Component T))}
    (h : FollowOn r start stop groups) (hr : ∀ a b, r a b → r' a b) :
    FollowOn r' start stop groups where
  apart := h.apart.imp fun hapart c₁ hc₁ c₂ hc₂ t s ht hs => hr t s (hapart c₁ hc₁ c₂ hc₂ t s ht hs)
  starts := fun group hgroup c hc => by
    obtain ⟨s, hs, hle⟩ := h.starts group hgroup c hc
    exact ⟨s, hs, hr _ _ hle⟩
  ends := fun group hgroup c hc t ht => by
    obtain ⟨e, he, hle⟩ := h.ends group hgroup c hc t ht
    exact ⟨e, he, hr _ _ hle⟩

end

open Number (minusInfinity)
open TimeScalar (NoLater)

/-- The children of a sequence follow each other, as far as their times are numbers, and they are
numbers if the sequence starts at one above minus infinity. -/
theorem sequence_followOn {setting : Setting Float} {around : Surroundings Float} {cursor : Float}
    {el : Element} {draft draft' : Draft Float} {components : List (Component Float)}
    {stop : Option Float} (h : Flowing (knownNow setting draft) el) (htag : el.tag = "sequence")
    (hc : container setting around cursor el draft = .ok ((components, stop), draft')) :
    ∃ inner between groups,
      surroundingsOf setting around (around.ownBase cursor) el draft = .ok (inner, between) ∧
        components = groups.flatten ∧ List.Forall₂ (ComesTo setting inner) el.children groups ∧
          FollowOn NoLater (around.ownBase cursor) stop groups ∧
            (minusInfinity < around.ownBase cursor →
              FollowOn (· ≤ ·) (around.ownBase cursor) stop groups) := by
  cases habove : TimeScalar.lt minusInfinity (around.ownBase cursor) with
  | true =>
      obtain ⟨inner, between, groups, hinner, hgroups, hcome, hfollow⟩ :=
        container_followOn TimeScalar.rising_above h htag habove hc
      have hfollow := hfollow.mono fun _ _ hle => of_decide_eq_true hle
      exact ⟨inner, between, groups, hinner, hgroups, hcome, hfollow.mono fun _ _ => .inl,
        fun _ => hfollow⟩
  | false =>
      obtain ⟨inner, between, groups, hinner, hgroups, hcome, hfollow⟩ :=
        container_followOn TimeScalar.rising_sunk h htag habove hc
      exact ⟨inner, between, groups, hinner, hgroups, hcome, hfollow,
        fun hlt => absurd hlt (of_decide_eq_false habove)⟩

/-- What the only scene of a composition starts from. -/
def alone : Setting Float := .among (.int 30) 1 [] 0

/-- A box that lasts as long as it says. -/
def boxFor (duration : String) : Element where
  tag := "box"
  attributes := [("duration", duration)]

/-- A box, two at once, and another one. -/
def boxes : Element where
  tag := "sequence"
  children := [boxFor "1", { tag := "stack", children := [boxFor "2", boxFor "3"] }, boxFor "1"]

theorem flowing_boxes : Flowing (knownNow alone {}) boxes := by
  have hbox : ∀ duration, (boxFor duration).Lasts (knownNow alone {}) "duration" →
      Flowing (knownNow alone {}) (boxFor duration) := fun _ h => .component rfl rfl rfl h
  have hone := hbox "1" (by decide +kernel)
  have htwo := hbox "2" (by decide +kernel)
  have hthree := hbox "3" (by decide +kernel)
  have hstack : Flowing (knownNow alone {})
      { tag := "stack", children := [boxFor "2", boxFor "3"] } := by
    refine .container rfl rfl rfl rfl nofun nofun fun child hchild _ => ?_
    simp only [List.mem_cons, List.not_mem_nil, or_false] at hchild
    rcases hchild with rfl | rfl <;> assumption
  refine .container rfl rfl rfl rfl nofun nofun fun child hchild _ => ?_
  simp only [boxes, List.mem_cons, List.not_mem_nil, or_false] at hchild
  rcases hchild with rfl | rfl | rfl <;> assumption

theorem sequence_followOn_boxes : ∃ components stop after,
    container alone (top 1 "") 1 boxes {} = .ok ((components, stop), after) ∧
      ∃ groups, components = groups.flatten ∧ groups.length = 3 ∧
        FollowOn (· ≤ ·) 1 stop groups := by
  have hok : (container alone (top 1 "") 1 boxes {}).toBool = true := by decide +kernel
  cases hc : container alone (top 1 "") 1 boxes {} with
  | error fault => rw [hc] at hok; cases hok
  | ok r =>
      obtain ⟨⟨components, stop⟩, after⟩ := r
      obtain ⟨_, _, groups, -, hgroups, hcome, -, hfollow⟩ :=
        sequence_followOn flowing_boxes rfl hc
      exact ⟨components, stop, after, rfl, groups, hgroups, hcome.length_eq.symm,
        hfollow (by decide +kernel)⟩

/-- Two boxes that say nothing. -/
def pair : Element where
  tag := "sequence"
  children := [{ tag := "box" }, { tag := "box" }]

/-- The two boxes, after a scene of no duration on a scale that is infinite. -/
def unscaledPair : Element where
  tag := "vml"
  attributes := [("id", "film"), ("timeScale", "inf")]
  children := [
    { tag := "scene", attributes := [("id", "intro"), ("duration", "0")] },
    { tag := "scene", attributes := [("id", "outro")], children := [pair] }]

/-- From NaN on, the first box does not end before the second one starts. -/
theorem compose_unscaledPair : (∀ known : Known Float, Flowing known pair) ∧
    ∃ c : Composition Float, Resolution.compose unscaledPair = .ok c ∧
      ∃ scene ∈ c.scenes, ∃ c₁ c₂, scene.components[0]? = some c₁ ∧
        scene.components[1]? = some c₂ ∧ ∃ t s, c₁.stop = some t ∧ c₂.start = some s ∧
          ¬ t ≤ s := by
  constructor
  · intro known
    refine .container rfl rfl rfl rfl nofun nofun fun child hchild _ => ?_
    simp only [pair, List.mem_cons, List.not_mem_nil, or_false, or_self] at hchild
    rw [hchild]
    exact .component rfl rfl rfl nofun
  · have hover : ((Resolution.compose unscaledPair).toOption.any fun c : Composition Float =>
        c.scenes.any fun scene => scene.components[0]?.any fun c₁ => c₁.stop.any fun t =>
          scene.components[1]?.any fun c₂ => c₂.start.any fun s => !TimeScalar.le t s) = true := by
      decide +kernel
    obtain ⟨c, hc, hover⟩ := exists_ok_of_any hover
    obtain ⟨scene, hscene, hover⟩ := List.any_eq_true.mp hover
    obtain ⟨c₁, hc₁, hover⟩ := (Option.any_eq_true _ _).mp hover
    obtain ⟨t, ht, hover⟩ := (Option.any_eq_true _ _).mp hover
    obtain ⟨c₂, hc₂, hover⟩ := (Option.any_eq_true _ _).mp hover
    obtain ⟨s, hs, hover⟩ := (Option.any_eq_true _ _).mp hover
    rw [Bool.not_eq_true'] at hover
    exact ⟨c, hc, scene, hscene, c₁, c₂, hc₁, hc₂, t, s, ht, hs, of_decide_eq_false hover⟩

end Attempt

end Cuesheet
