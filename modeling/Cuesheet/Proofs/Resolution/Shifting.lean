import Cuesheet.Proofs.Resolution.Anchoring
import Cuesheet.Proofs.Time.Exact

/-!
# Scenes that start later

What stands in a scene is placed relative to the start of the scene, as far as no formula in it is
anchored. An attempt at a scene that starts later by some time writes down the same, with this time
added to every start and end (`Shifts`), one lemma for each thing that is placed. So the scene it
comes to is the one moved by that time (`scene_shifts`). Times have to be exact: sums of doubles are
rounded where they end up.
-/

namespace Cuesheet

open TimeScalar (Exact)

variable {T : Type} [TimeScalar T] {d : T}

/-! ## Scenes moved in time -/

def Cue.shifted (d : T) (c : Cue T) : Cue T :=
  { c with start := c.start.map (TimeScalar.add · d), stop := c.stop.map (TimeScalar.add · d) }

def SceneItem.shifted (d : T) : SceneItem T → SceneItem T
  | .cue c => .cue (c.shifted d)
  | .pause p => .pause p

def Component.shifted (d : T) (c : Component T) : Component T :=
  { c with start := c.start.map (TimeScalar.add · d), stop := c.stop.map (TimeScalar.add · d) }

def Layer.shifted (d : T) (l : Layer T) : Layer T :=
  { l with
    start := l.start.map (TimeScalar.add · d)
    stop := l.stop.map (TimeScalar.add · d)
    components := l.components.map (Component.shifted d) }

/-- A scene with a time added to all its starts and ends, and to those of everything in it. -/
def Scene.shifted (d : T) (s : Scene T) : Scene T :=
  { s with
    start := TimeScalar.add s.start d
    stop := s.stop.map (TimeScalar.add · d)
    items := s.items.map (SceneItem.shifted d)
    layers := s.layers.map (Layer.shifted d)
    components := s.components.map (Component.shifted d) }

/-! ## Markup without anchored formulas -/

namespace Element

/-- The attributes of an element with a tag that are read as times. -/
def timingAttributes (tag : String) : List String :=
  if tag == "voice" then ["trim-end"]
  else if tag == "pause" then ["seconds", "mean", "std", "min", "max"]
  else if isContainerTag tag then
    ["start", "end", "duration", "default-child-duration", "defaultChildDuration"]
  else ["start", "end", "duration"]

/-- A formula in an attribute is not anchored. -/
def Offset (el : Element) (name : String) : Prop :=
  ∀ raw ∈ el.get? name, Attempt.isAnchored raw = false

instance (el : Element) (name : String) : Decidable (el.Offset name) :=
  inferInstanceAs (Decidable (∀ raw ∈ el.get? name, Attempt.isAnchored raw = false))

/-- No time in an element or below it is anchored. -/
def Unanchored (el : Element) : Prop :=
  ∀ inner ∈ el.preorder, ∀ name ∈ timingAttributes inner.tag, inner.Offset name

instance (el : Element) : Decidable el.Unanchored :=
  inferInstanceAs (Decidable (∀ inner ∈ el.preorder, ∀ name ∈ timingAttributes inner.tag,
    inner.Offset name))

variable {el : Element}

theorem Unanchored.offset (h : el.Unanchored) {name : String}
    (hname : name ∈ timingAttributes el.tag) : el.Offset name := by
  refine h el ?_ name hname
  cases el
  exact List.mem_cons_self

theorem mem_preorderAll {els : List Element} {inner : Element} :
    inner ∈ preorderAll els ↔ ∃ el ∈ els, inner ∈ el.preorder := by
  induction els with
  | nil => simp [preorderAll]
  | cons el rest ih => simp [preorderAll, ih]

theorem Unanchored.children (h : el.Unanchored) : ∀ child ∈ el.children, child.Unanchored := by
  intro child hchild inner hinner
  refine h inner ?_
  cases el
  exact List.mem_cons_of_mem _ (mem_preorderAll.mpr ⟨child, hchild, hinner⟩)

theorem timingAttributes_container {tag : String} (h : isContainerTag tag = true) :
    timingAttributes tag =
      ["start", "end", "duration", "default-child-duration", "defaultChildDuration"] := by
  have htag : tag ∈ ["sequence", "stack", "scene"] := List.contains_iff_mem.mp h
  rcases List.mem_cons.mp htag with rfl | htag
  · rfl
  · rcases List.mem_pair.mp htag with rfl | rfl <;> rfl

/-- Formulas give the start, the end and the duration of whatever is placed. -/
theorem Unanchored.window (h : el.Unanchored) (hvoice : el.tag ≠ "voice")
    (hpause : el.tag ≠ "pause") :
    el.Offset "start" ∧ el.Offset "end" ∧ el.Offset "duration" := by
  have htimes : ∀ name ∈ ["start", "end", "duration"], name ∈ timingAttributes el.tag := by
    intro name hname
    unfold timingAttributes
    rw [if_neg (mt eq_of_beq hvoice), if_neg (mt eq_of_beq hpause)]
    split
    · exact List.mem_append_left ["default-child-duration", "defaultChildDuration"] hname
    · exact hname
  exact ⟨h.offset (htimes _ (by decide)), h.offset (htimes _ (by decide)),
    h.offset (htimes _ (by decide))⟩

end Element

/-! ## Attempts at two starts -/

/-- What was learnt, with a time added to all times. -/
def Draft.shifted (d : T) (draft : Draft T) : Draft T :=
  { draft with
    sceneStart := draft.sceneStart.map (Prod.map id (TimeScalar.add · d))
    sceneEnd := draft.sceneEnd.map (Prod.map id (TimeScalar.add · d))
    cueStarts := draft.cueStarts.map (Prod.map id (TimeScalar.add · d))
    ends := draft.ends.map (TimeScalar.add · d) }

/-- Settings that differ at most in the times that are known. -/
structure Setting.Like (setting setting' : Setting T) : Prop where
  fps : setting'.known.fps = setting.known.fps
  takenCues : setting'.takenCues = setting.takenCues
  scale : setting'.scale = setting.scale

theorem Entries.put_map {α β γ : Type} [BEq α] (entries : Entries α β) (key : α) (value : β)
    (f : β → γ) : Entries.put (entries.map (Prod.map id f)) key (f value) =
      (entries.put key value).map (Prod.map id f) := by
  induction entries with
  | nil => rfl
  | cons entry rest ih =>
      rw [List.map_cons, put, put, ih]
      dsimp only [Prod.map_fst, id]
      split <;> rfl

namespace Attempt

variable {α β : Type} {m m' : Attempt T α} {f : α → α}

/-- Where a step succeeds, another one succeeds after drafts in which all times are later, with
all times still later. -/
def Shifts (d : T) (m m' : Attempt T α) (f : α → α) : Prop :=
  ∀ ⦃draft after : Draft T⦄ ⦃a : α⦄, m draft = .ok (a, after) →
    m' (draft.shifted d) = .ok (f a, after.shifted d)

namespace Shifts

theorem pure (a : α) {b : α} (h : b = f a) :
    Shifts d (pure a : Attempt T α) (pure b : Attempt T α) f := by
  rintro draft _ _ ⟨⟩
  rw [h]
  rfl

theorem throw (stop : AttemptStop) (m' : Attempt T α) :
    Shifts d (throw stop : Attempt T α) m' f := nofun

theorem bind {g g' : α → Attempt T β} {k : β → β} (h : Shifts d m m' f)
    (hg : ∀ a, Shifts d (g a) (g' (f a)) k) : Shifts d (m >>= g) (m' >>= g') k := by
  intro draft after b hb
  obtain ⟨a, between, hm, hga⟩ := bind_ok hb
  rw [bind_of_ok (h hm)]
  exact hg a hga

/-- The rule for a step whose result does not move. -/
theorem bindSame {g g' : α → Attempt T β} {k : β → β} (h : Shifts d m m' id)
    (hg : ∀ a, Shifts d (g a) (g' a) k) : Shifts d (m >>= g) (m' >>= g') k := h.bind hg

theorem ite {c : Prop} [Decidable c] {n n' : Attempt T α} (hthen : c → Shifts d m m' f)
    (helse : ¬ c → Shifts d n n' f) :
    Shifts d (if c then m else n) (if c then m' else n') f := by
  split
  · exact hthen ‹_›
  · exact helse ‹_›

theorem modify {u u' : Draft T → Draft T}
    (h : ∀ draft, u' (draft.shifted d) = (u draft).shifted d) :
    Shifts d (modify u : Attempt T Unit) (modify u') id := by
  rintro draft _ _ ⟨⟩
  exact congrArg (fun after => Except.ok ((), after)) (h draft)

/-- The rule for a step that looks at the draft. -/
theorem get {g g' : Draft T → Attempt T α}
    (h : ∀ draft, Shifts d (g draft) (g' (draft.shifted d)) f) :
    Shifts d (get >>= g) (get >>= g') f := fun draft _ _ hg => h draft hg

theorem ofExcept (x : Except ResolutionFault α) :
    Shifts d (ofExcept x : Attempt T α) (ofExcept x) id := by
  cases x with
  | ok a => exact pure a rfl
  | error fault => exact throw _ _

end Shifts

variable {setting setting' : Setting T} {el : Element} {name : String} {base scale start : T}

/-! ## Formulas -/

theorem evaluateTime_offset {known known' : Known T} {raw : String}
    (hfps : known'.fps = known.fps) (hraw : isAnchored raw = false) :
    evaluateTime known' raw = evaluateTime known raw := by
  cases he : Expr.ofText raw with
  | error fault =>
      unfold evaluateTime
      rw [he]
  | ok e =>
      have hplain : e.isAnchored = false := by
        rw [← hraw, isAnchored, he]
      rw [evaluateTime_of_ok he, evaluateTime_of_ok he, Expr.evaluate_nothing hplain known',
        Expr.evaluate_nothing hplain known, hfps]

theorem evaluate_shifts (hlike : setting.Like setting') {raw : String}
    (hraw : isAnchored raw = false) :
    Shifts d (evaluate setting raw) (evaluate setting' raw) id := by
  intro draft after t ht
  obtain ⟨hvalue, rfl⟩ := evaluate_ok ht
  have hfps : (knownNow setting' (after.shifted d)).fps = (knownNow setting after).fps := hlike.fps
  rw [evaluate_apply, evaluateTime_offset hfps hraw, hvalue]
  rfl

theorem time?_shifts (hlike : setting.Like setting') (h : el.Offset name) :
    Shifts d (time? setting el name) (time? setting' el name) id := by
  unfold time?
  cases hget : el.get? name with
  | none => exact .pure _ rfl
  | some raw => exact (evaluate_shifts hlike (h raw hget)).bindSame fun t => .pure _ rfl

theorem place?_shifts (exact : Exact T) (hlike : setting.Like setting') (h : el.Offset name) :
    Shifts d (place? setting el name base scale)
      (place? setting' el name (TimeScalar.add base d) scale)
      (Option.map (TimeScalar.add · d)) := by
  unfold place?
  cases hget : el.get? name with
  | none => exact .pure _ rfl
  | some raw =>
      refine (evaluate_shifts hlike (h raw hget)).bindSame fun value => ?_
      rw [h raw hget, if_neg Bool.false_ne_true, if_neg Bool.false_ne_true]
      exact .pure _ (congrArg some (exact.add_right_comm base d _))

theorem durationEnd?_shifts (exact : Exact T) (hlike : setting.Like setting')
    (h : el.Offset "duration") :
    Shifts d (durationEnd? setting el start scale)
      (durationEnd? setting' el (TimeScalar.add start d) scale)
      (Option.map (TimeScalar.add · d)) := by
  refine (time?_shifts hlike h).bindSame fun duration => ?_
  cases duration with
  | none => exact .pure _ rfl
  | some duration => exact .pure _ (congrArg some (exact.add_right_comm start d _))

theorem noteEnd_shifts (stop : Option T) :
    Shifts d (noteEnd stop) (noteEnd (stop.map (TimeScalar.add · d))) id := by
  cases stop with
  | none => exact .pure _ rfl
  | some t =>
      refine .modify fun draft => ?_
      simp only [Draft.shifted, List.map_append, List.map_cons, List.map_nil]

/-! ## Cues and pauses -/

theorem pause_shifts (hlike : setting.Like setting') (hplain : el.Unanchored)
    (htag : el.tag = "pause") (place : String) :
    Shifts d (pause setting el place) (pause setting' el place) id := by
  have htimes : ∀ name ∈ ["seconds", "mean", "std", "min", "max"],
      Shifts d (time? setting el name) (time? setting' el name) id :=
    fun name hname => time?_shifts hlike (hplain.offset (by rw [htag]; exact hname))
  refine (htimes "seconds" (by decide)).bindSame fun seconds => ?_
  cases seconds with
  | some seconds => exact .pure _ rfl
  | none =>
      refine .ite (fun _ => ?_) fun _ => .throw _ _
      refine (htimes "mean" (by decide)).bindSame fun mean => ?_
      refine (htimes "std" (by decide)).bindSame fun std => ?_
      cases mean with
      | none => exact .throw _ _
      | some mean =>
          cases std with
          | none => exact .throw _ _
          | some std =>
              refine (htimes "min" (by decide)).bindSame fun min => ?_
              exact (htimes "max" (by decide)).bindSame fun max => .pure _ rfl

theorem cueContent_shifts (hlike : setting.Like setting') (place : String) :
    ∀ {children : List Element}, (∀ child ∈ children, child.Unanchored) →
      Shifts d (cueContent setting place children) (cueContent setting' place children) id
  | [], _ => .pure _ rfl
  | child :: rest, h => by
      obtain ⟨hchild, hrest⟩ := List.forall_mem_cons.mp h
      have ih := cueContent_shifts hlike place hrest
      rw [cueContent, cueContent]
      refine .ite (fun hvoice => ?_) fun _ => .ite (fun hpause => ?_) fun _ => ?_
      · refine .ite (fun _ => ih) fun _ => ?_
        have htrim : "trim-end" ∈ Element.timingAttributes child.tag := by
          rw [eq_of_beq hvoice]
          decide
        refine (time?_shifts hlike (hchild.offset htrim)).bindSame fun trimEnd => ?_
        exact ih.bindSame fun content => .pure _ rfl
      · refine (pause_shifts hlike hchild (eq_of_beq hpause) place).bindSame fun p => ?_
        exact ih.bindSame fun content => .pure _ rfl
      · exact .ite (fun _ => ih.bindSame fun content => .pure _ rfl) fun _ => ih

theorem cueTimes_shifts (exact : Exact T) (hlike : setting.Like setting') (hplain : el.Unanchored)
    (htag : el.tag = "cue") (id : String) :
    Shifts d (cueTimes setting el id base scale)
      (cueTimes setting' el id (TimeScalar.add base d) scale)
      (Prod.map (Option.map (TimeScalar.add · d)) (Option.map (TimeScalar.add · d))) := by
  obtain ⟨hstart, hstop, hduration⟩ :=
    hplain.window (by rw [htag]; decide) (by rw [htag]; decide)
  refine (place?_shifts exact hlike hstart).bind fun start => ?_
  cases start with
  | none => exact .ite (fun _ => .throw _ _) fun _ => .pure _ rfl
  | some start =>
      refine Shifts.bindSame (.modify fun draft => ?_) fun _ => ?_
      · simp only [Draft.shifted, Entries.put_map]
      have hnote : ∀ stop : Option T,
          Shifts d (do noteEnd stop; return (some start, stop) : Attempt T _)
            (do
              noteEnd (stop.map (TimeScalar.add · d))
              return (some (TimeScalar.add start d), stop.map (TimeScalar.add · d)))
            (Prod.map (Option.map (TimeScalar.add · d)) (Option.map (TimeScalar.add · d))) :=
        fun stop => (noteEnd_shifts stop).bindSame fun _ => .pure _ rfl
      refine (place?_shifts exact hlike hstop).bind fun placed => ?_
      cases placed with
      | some t => exact hnote (some t)
      | none => exact (durationEnd?_shifts exact hlike hduration).bind hnote

theorem cue_shifts (exact : Exact T) (hlike : setting.Like setting') (hplain : el.Unanchored)
    (htag : el.tag = "cue") (place : String) :
    Shifts d (cue setting el base scale place)
      (cue setting' el (TimeScalar.add base d) scale place) (Cue.shifted d) := by
  unfold cue
  cases el.get? "id" with
  | none => exact .throw _ _
  | some id =>
      dsimp only
      rw [hlike.takenCues]
      -- the ids so far are the same in both drafts
      refine .get fun draft => .ite (fun _ => .throw _ _) fun _ => ?_
      refine Shifts.bindSame (.modify fun draft => rfl) fun _ => ?_
      refine (cueTimes_shifts exact hlike hplain htag id).bind fun (start, stop) => ?_
      exact (cueContent_shifts hlike place hplain.children).bindSame fun content => .pure _ rfl

/-! ## Components and containers -/

theorem window_shifts (exact : Exact T) (hlike : setting.Like setting')
    (h : el.Offset "start" ∧ el.Offset "end" ∧ el.Offset "duration") :
    Shifts d (window setting el base) (window setting' el (TimeScalar.add base d))
      (Prod.map (TimeScalar.add · d) (Option.map (TimeScalar.add · d))) := by
  obtain ⟨hstart, hstop, hduration⟩ := h
  refine (place?_shifts exact hlike hstart).bind fun start => ?_
  have hfirst : (start.map (TimeScalar.add · d)).getD (TimeScalar.add base d) =
      TimeScalar.add (start.getD base) d := by
    cases start <;> rfl
  dsimp only
  rw [hfirst]
  refine (place?_shifts exact hlike hstop).bind fun stop => ?_
  cases stop with
  | some stop => exact .pure _ rfl
  | none =>
      refine (time?_shifts hlike hduration).bindSame fun duration => ?_
      cases duration with
      | none => exact .pure _ rfl
      | some duration =>
          have hstop := exact.add_right_comm (start.getD base) d duration
          exact .pure _ (congrArg (fun t => (TimeScalar.add (start.getD base) d, some t)) hstop)

/-- What contains an element, moved by a time. -/
def Surroundings.shifted (d : T) (around : Surroundings T) : Surroundings T :=
  { around with base := TimeScalar.add around.base d }

theorem Surroundings.ownBase_shifted (around : Surroundings T) (cursor : T) :
    (around.shifted d).ownBase (TimeScalar.add cursor d) =
      TimeScalar.add (around.ownBase cursor) d := by
  unfold Surroundings.ownBase Surroundings.shifted
  cases around.flow <;> rfl

theorem nextIndex_shifts : Shifts d (nextIndex : Attempt T Nat) nextIndex id := by
  rintro draft _ _ ⟨⟩
  rfl

theorem Surroundings.stopAfter_shifted (exact : Exact T) (around : Surroundings T) (start : T)
    (explicit : Option T) :
    (around.shifted d).stopAfter (TimeScalar.add start d) (explicit.map (TimeScalar.add · d)) =
      (around.stopAfter start explicit).map (TimeScalar.add · d) := by
  unfold Surroundings.stopAfter Surroundings.shifted
  cases explicit with
  | some t => rfl
  | none =>
      cases around.flow with
      | sequence => exact congrArg some (exact.add_right_comm start d _)
      | stack => rfl

/-- A component once its start and its end are found. -/
def placedComponent (around : Surroundings T) (el : Element) (start : T) (stop : Option T) :
    Attempt T (Component T) := do
  noteEnd stop
  let index ← nextIndex
  let id := (el.get? "id").getD (el.tag ++ "-" ++ Number.intText index)
  let place := around.place ++ ", " ++ el.tag ++ " '" ++ id ++ "'"
  let props ← ofExcept (el.props place)
  let z ← ofExcept (Element.number? (el.get? "z"))
  let styles ← ofExcept (el.map? "styles" place)
  let markup ← ofExcept (el.map? "markup" place)
  return {
    id
    type := Text.pascalCase el.tag
    props
    start := some start
    stop
    visible := el.flag? "visible"
    z
    styles := Fields.cascade around.styles styles
    markup := Fields.cascade around.markup markup
    text := el.words
    handlers := el.handlers }

theorem component_eq (around : Surroundings T) (cursor : T) :
    component setting around cursor el = (do
      let times ← window setting el (around.ownBase cursor)
      placedComponent around el times.1 (around.stopAfter times.1 times.2)) := by
  unfold component Surroundings.stopAfter
  refine bind_congr fun times => ?_
  obtain ⟨start, explicit⟩ := times
  cases explicit with
  | some t => rfl
  | none => cases around.flow <;> rfl

theorem component_shifts (exact : Exact T) (hlike : setting.Like setting') (hplain : el.Unanchored)
    (htag : Element.isStructuralTag el.tag = false) (around : Surroundings T) (cursor : T) :
    Shifts d (component setting around cursor el)
      (component setting' (around.shifted d) (TimeScalar.add cursor d) el)
      (Component.shifted d) := by
  have htimes := hplain.window (fun h => by rw [h] at htag; cases htag)
    (fun h => by rw [h] at htag; cases htag)
  rw [component_eq, component_eq, around.ownBase_shifted]
  refine (window_shifts exact hlike htimes).bind fun times => ?_
  dsimp only [Prod.map_fst, Prod.map_snd]
  rw [around.stopAfter_shifted exact]
  refine (noteEnd_shifts _).bindSame fun _ => nextIndex_shifts.bindSame fun index => ?_
  refine (Shifts.ofExcept _).bindSame fun props => (Shifts.ofExcept _).bindSame fun z => ?_
  refine (Shifts.ofExcept _).bindSame fun styles => ?_
  exact (Shifts.ofExcept _).bindSame fun markup => .pure _ rfl

theorem defaultChildOf_shifts (hlike : setting.Like setting') (hplain : el.Unanchored)
    (htag : Element.isContainerTag el.tag = true) :
    Shifts d (defaultChildOf setting el) (defaultChildOf setting' el) id := by
  have hnames := Element.timingAttributes_container htag
  refine (time?_shifts hlike (hplain.offset (by rw [hnames]; decide))).bindSame fun first => ?_
  cases first with
  | some t => exact .pure _ rfl
  | none =>
      refine (time?_shifts hlike (hplain.offset (by rw [hnames]; decide))).bindSame fun second => ?_
      exact .pure _ rfl

theorem surroundingsOf_shifts (hlike : setting.Like setting') (hplain : el.Unanchored)
    (htag : Element.isContainerTag el.tag = true) (around : Surroundings T) (start : T) :
    Shifts d (surroundingsOf setting around start el)
      (surroundingsOf setting' (around.shifted d) (TimeScalar.add start d) el)
      (Surroundings.shifted d) := by
  refine (Shifts.ofExcept _).bindSame fun styles => (Shifts.ofExcept _).bindSame fun markup => ?_
  exact (defaultChildOf_shifts hlike hplain htag).bindSame fun defaultChild => .pure _ rfl

def Placed.shifted (d : T) (placed : Placed T) : Placed T where
  components := placed.components.map (Component.shifted d)
  cursor := TimeScalar.add placed.cursor d
  latest := placed.latest.map (TimeScalar.add · d)

theorem Placed.implicitEnd_shifted (placed : Placed T) (flow : Flow) :
    (placed.shifted d).implicitEnd flow =
      (placed.implicitEnd flow).map (TimeScalar.add · d) := by
  obtain ⟨components, cursor, latest⟩ := placed
  cases flow <;> cases latest <;> rfl

theorem advance_shifted (flow : Flow) (cursor : T) (stop : Option T) :
    advance flow (TimeScalar.add cursor d) (stop.map (TimeScalar.add · d)) =
      TimeScalar.add (advance flow cursor stop) d := by
  cases stop with
  | none => rfl
  | some t => cases flow <;> rfl

theorem or_map_add (x y : Option T) :
    (x.map (TimeScalar.add · d)).or (y.map (TimeScalar.add · d)) =
      (x.or y).map (TimeScalar.add · d) := by
  cases x <;> rfl

mutual

theorem container_shifts (exact : Exact T) (hlike : setting.Like setting') :
    ∀ {el : Element}, el.Unanchored → Element.isContainerTag el.tag = true →
      ∀ (around : Surroundings T) (cursor : T),
        Shifts d (container setting around cursor el)
          (container setting' (around.shifted d) (TimeScalar.add cursor d) el)
          (Prod.map (List.map (Component.shifted d)) (Option.map (TimeScalar.add · d)))
  | ⟨tag, attributes, children, text⟩, hplain, htag, around, cursor => by
      have htimes := hplain.window
        (fun h => by rw [show tag = "voice" from h] at htag; cases htag)
        (fun h => by rw [show tag = "pause" from h] at htag; cases htag)
      rw [container, container, around.ownBase_shifted]
      refine (window_shifts exact hlike htimes).bind fun (start, explicit) => ?_
      refine (surroundingsOf_shifts hlike hplain htag around start).bind fun inner => ?_
      refine (contained_shifts exact hlike hplain.children inner start none).bind fun placed => ?_
      dsimp only [Prod.map_apply]
      rw [show (inner.shifted d).flow = inner.flow from rfl, placed.implicitEnd_shifted, or_map_add]
      exact (noteEnd_shifts _).bindSame fun _ => .pure _ rfl

/-- In a container everything is moved with its base, its cursor and the latest end so far. -/
theorem contained_shifts (exact : Exact T) (hlike : setting.Like setting') :
    ∀ {children : List Element}, (∀ child ∈ children, child.Unanchored) →
      ∀ (around : Surroundings T) (cursor : T) (latest : Option T),
        Shifts d (contained setting around cursor latest children)
          (contained setting' (around.shifted d) (TimeScalar.add cursor d)
            (latest.map (TimeScalar.add · d)) children) (Placed.shifted d)
  | [], _, around, cursor, latest => by
      rw [contained, contained]
      exact .pure _ rfl
  | child :: rest, h, around, cursor, latest => by
      obtain ⟨hchild, hrest⟩ := List.forall_mem_cons.mp h
      have hafter : ∀ stop : Option T,
          Shifts d (contained setting around (advance around.flow cursor stop)
              (TimeScalar.laterEnd latest stop) rest)
            (contained setting' (around.shifted d)
              (advance around.flow (TimeScalar.add cursor d) (stop.map (TimeScalar.add · d)))
              (TimeScalar.laterEnd (latest.map (TimeScalar.add · d))
                (stop.map (TimeScalar.add · d))) rest) (Placed.shifted d) := by
        intro stop
        rw [advance_shifted, exact.laterEnd_moved]
        exact contained_shifts exact hlike hrest around _ _
      rw [contained, contained]
      refine .ite (fun htag => ?_) fun _ => .ite (fun _ => ?_) fun htag => ?_
      · refine (container_shifts exact hlike hchild htag around cursor).bind fun (found, stop) => ?_
        refine (hafter stop).bind fun placed => .pure _ ?_
        simp only [Placed.shifted, List.map_append]
      · exact contained_shifts exact hlike hrest around cursor latest
      · refine (component_shifts exact hlike hchild (Bool.eq_false_iff.mpr htag) around cursor).bind
          fun c => ?_
        refine (hafter c.stop).bind fun placed => .pure _ ?_
        simp only [Placed.shifted, List.map_cons]

end

theorem layer_shifts (exact : Exact T) (hlike : setting.Like setting') (hplain : el.Unanchored)
    (htag : el.tag = "layer") (place : String) :
    Shifts d (layer setting el start place) (layer setting' el (TimeScalar.add start d) place)
      (Layer.shifted d) := by
  have htimes := hplain.window (by rw [htag]; decide) (by rw [htag]; decide)
  unfold layer
  cases el.get? "id" with
  | none => exact .throw _ _
  | some id =>
      refine (window_shifts exact hlike htimes).bind fun (start, explicit) => ?_
      refine (contained_shifts exact hlike hplain.children (top start _) start none).bind
        fun placed => ?_
      dsimp only [Prod.map_apply, Placed.shifted]
      rw [or_map_add]
      refine (noteEnd_shifts _).bindSame fun _ => (Shifts.ofExcept _).bindSame fun z => ?_
      refine (Shifts.ofExcept _).bindSame fun styles => ?_
      exact (Shifts.ofExcept _).bindSame fun markup => .pure _ rfl

/-! ## Scenes -/

def SceneContent.shifted (d : T) (content : SceneContent T) : SceneContent T where
  items := content.items.map (SceneItem.shifted d)
  layers := content.layers.map (Layer.shifted d)
  components := content.components.map (Component.shifted d)

theorem sceneContent_shifts (exact : Exact T) (hlike : setting.Like setting') (place : String) :
    ∀ {children : List Element}, (∀ child ∈ children, child.Unanchored) →
      Shifts d (sceneContent setting start scale place children)
        (sceneContent setting' (TimeScalar.add start d) scale place children)
        (SceneContent.shifted d)
  | [], _ => .pure _ rfl
  | child :: rest, h => by
      obtain ⟨hchild, hrest⟩ := List.forall_mem_cons.mp h
      have ih := sceneContent_shifts exact hlike place hrest
      have htop : top (TimeScalar.add start d) place = (top start place).shifted d := rfl
      rw [sceneContent, sceneContent, htop]
      refine .ite (fun htag => ?_) fun _ => .ite (fun htag => ?_) fun _ =>
        .ite (fun htag => ?_) fun _ => .ite (fun htag => ?_) fun _ =>
          .ite (fun _ => ih) fun htag => ?_
      · refine (cue_shifts exact hlike hchild (eq_of_beq htag) place).bind fun c => ?_
        exact ih.bind fun content => .pure _ rfl
      · refine (pause_shifts hlike hchild (eq_of_beq htag) place).bindSame fun p => ?_
        exact ih.bind fun content => .pure _ rfl
      · refine (layer_shifts exact hlike hchild (eq_of_beq htag) place).bind fun l => ?_
        exact ih.bind fun content => .pure _ rfl
      · refine (container_shifts exact hlike hchild htag _ start).bind fun (found, _) => ?_
        refine ih.bind fun content => .pure _ ?_
        simp only [SceneContent.shifted, List.map_append]
      · refine (component_shifts exact hlike hchild (Bool.eq_false_iff.mpr htag) _ start).bind
          fun c => ?_
        exact ih.bind fun content => .pure _ rfl

theorem checkEnd_shifts (exact : Exact T) (place : String) (start : T) (stop : Option T) :
    Shifts d (checkEnd place start stop)
      (checkEnd place (TimeScalar.add start d) (stop.map (TimeScalar.add · d))) id := by
  cases stop with
  | none => exact .pure _ rfl
  | some t =>
      dsimp only [checkEnd, Option.map_some]
      rw [exact.lt_add]
      exact .ite (fun _ => .throw _ _) fun _ => .pure _ rfl

theorem noteSceneEnd_shifts (sceneId : String) (stop : Option T) :
    Shifts d (noteSceneEnd sceneId stop) (noteSceneEnd sceneId (stop.map (TimeScalar.add · d)))
      id := by
  cases stop with
  | none => exact .pure _ rfl
  | some t => exact .modify fun draft => rfl

end Attempt

/-- The element with another start. -/
def Element.startingAt (el : Element) (raw : String) : Element :=
  { el with attributes := el.attributes.put "start" raw }

namespace Element

theorem get?_startingAt (el : Element) (raw : String) {name : String} (h : name ≠ "start") :
    (el.startingAt raw).get? name = el.get? name := by
  unfold get? startingAt
  rw [Entries.value?_put, if_neg (by simpa using h.symm)]

theorem get?_start_startingAt (el : Element) {raw : String} (h : raw ≠ "") :
    (el.startingAt raw).get? "start" = some raw := by
  unfold get? startingAt
  rw [Entries.value?_put, if_pos (beq_self_eq_true _)]
  dsimp only
  rw [if_neg (mt String.isEmpty_iff.mp h)]

/-- A start handles no event. -/
theorem handlers_startingAt (el : Element) (raw : String) :
    (el.startingAt raw).handlers = el.handlers := by
  have hstart : handlerEvent? "start" = none := rfl
  unfold handlers startingAt
  dsimp only
  induction el.attributes with
  | nil => rw [Entries.put, List.filterMap_cons, hstart]
  | cons entry rest ih =>
      rw [Entries.put]
      split
      · rename_i hname
        rw [List.filterMap_cons, List.filterMap_cons, eq_of_beq hname, hstart]
      · rw [List.filterMap_cons, List.filterMap_cons, ih]

theorem timeScale_startingAt (el : Element) (raw : String) :
    (el.startingAt raw).timeScale = (el.timeScale : T) := by
  have hfirst : (el.startingAt raw).getFirst? ["timeScale", "time-scale"] =
      el.getFirst? ["timeScale", "time-scale"] := by
    have hcamel := el.get?_startingAt raw (by decide : "timeScale" ≠ "start")
    have hkebab := el.get?_startingAt raw (by decide : "time-scale" ≠ "start")
    simp only [getFirst?, List.findSome?_cons, List.findSome?_nil, hcamel, hkebab]
  unfold timeScale
  rw [hfirst]

theorem map?_startingAt (el : Element) (raw : String) {name : String} (h : name ≠ "start")
    (place : String) :
    (el.startingAt raw).map? name place = el.map? name place := by
  unfold map?
  rw [el.get?_startingAt raw h]

end Element

namespace Attempt

variable {setting setting' : Setting T} {el : Element} {raw raw' : String} {x : T}

theorem sceneStart_of_offset (hget : el.get? "start" = some raw) (hraw : isAnchored raw = false)
    (hx : evaluateTime setting.known raw = .ok x) (draft : Draft T) :
    sceneStart setting el draft = .ok (x, draft) := by
  have hvalue : evaluateTime (knownNow setting draft) raw = .ok x := by
    rw [← hx]
    exact evaluateTime_offset rfl hraw
  have hstart : evaluate setting raw draft = .ok (x, draft) := by
    rw [evaluate_apply, hvalue]
    rfl
  have htime : time? setting el "start" draft = .ok (some x, draft) := by
    unfold time?
    rw [hget]
    exact bind_of_ok hstart
  exact bind_of_ok htime

theorem sceneEnd_shifts (exact : Exact T) (hlike : setting.Like setting')
    (hend : el.get? "end" = none) (h : el.Offset "duration") (start scale : T) :
    Shifts d (sceneEnd setting el start scale)
      (sceneEnd setting' (el.startingAt raw) (TimeScalar.add start d) scale)
      (Option.map (TimeScalar.add · d)) := by
  have hend' := el.get?_startingAt raw (by decide : "end" ≠ "start")
  have hduration := el.get?_startingAt raw (by decide : "duration" ≠ "start")
  have hlast : durationEnd? setting' (el.startingAt raw) (TimeScalar.add start d) scale =
      durationEnd? setting' el (TimeScalar.add start d) scale := by
    simp only [durationEnd?, time?, hduration]
  simp only [sceneEnd, time?, hend', hend, pure_bind, hlast]
  exact durationEnd?_shifts exact hlike h

theorem closeScene_shifts (exact : Exact T) (id place : String) (start : T) (explicit : Option T)
    (content : SceneContent T) :
    Shifts d (closeScene id el place start explicit content)
      (closeScene id (el.startingAt raw) place (TimeScalar.add start d)
        (explicit.map (TimeScalar.add · d)) (content.shifted d)) (Scene.shifted d) := by
  refine .get fun draft => ?_
  have hstop : (explicit.map (TimeScalar.add · d)).or
      (TimeScalar.latest? (draft.shifted d).ends) =
        (explicit.or (TimeScalar.latest? draft.ends)).map (TimeScalar.add · d) := by
    rw [← or_map_add, ← exact.latest?_moved]
    rfl
  have htitle := el.get?_startingAt raw (by decide : "title" ≠ "start")
  have hhandlers := el.handlers_startingAt raw
  have hmap : ∀ name, name ≠ "start" →
      (el.startingAt raw).map? name place = el.map? name place :=
    fun name hname => el.map?_startingAt raw hname place
  simp only [hstop, htitle, hhandlers, hmap "styles" (by decide), hmap "markup" (by decide)]
  refine (checkEnd_shifts exact place start _).bindSame fun _ => ?_
  refine (Shifts.ofExcept _).bindSame fun styles => ?_
  exact (Shifts.ofExcept _).bindSame fun markup => .pure _ rfl

/-- A scene without an end of its own whose times are not anchored is placed by its start: with
another start it comes to the same scene, moved by the difference. What is known of other scenes
does not matter. -/
theorem scene_shifts (exact : Exact T) (hlike : setting.Like setting') (id : String)
    (htag : el.tag = "scene") (hend : el.get? "end" = none) (hplain : el.Unanchored)
    (hstart : el.get? "start" = some raw) (hx : evaluateTime setting.known raw = .ok x)
    (hplain' : isAnchored raw' = false)
    (hx' : evaluateTime setting.known raw' = .ok (TimeScalar.add x d)) {s : Scene T}
    (h : run setting id el = .ok s) : run setting' id (el.startingAt raw') = .ok (s.shifted d) := by
  have hne : raw' ≠ "" := by
    rintro rfl
    cases hx'
  have hknown : evaluateTime setting'.known raw' = .ok (TimeScalar.add x d) := by
    rw [← hx']
    exact evaluateTime_offset hlike.fps hplain'
  have hduration := (hplain.window (by rw [htag]; decide) (by rw [htag]; decide)).2.2
  have hscene : Shifts d (scene setting id el) (scene setting' id (el.startingAt raw'))
      (Scene.shifted d) := by
    have hbegin : Shifts d (sceneStart setting el) (sceneStart setting' (el.startingAt raw'))
        (TimeScalar.add · d) := by
      intro draft after t ht
      rw [sceneStart_of_offset hstart (hplain.offset (by rw [htag]; decide) raw hstart) hx] at ht
      cases ht
      exact sceneStart_of_offset (el.get?_start_startingAt hne) hplain' hknown _
    refine hbegin.bind fun start => Shifts.bindSame (.modify fun draft => rfl) fun _ => ?_
    rw [hlike.scale, Element.timeScale_startingAt]
    refine (sceneEnd_shifts exact hlike hend hduration start _).bind fun explicit => ?_
    refine (noteSceneEnd_shifts id explicit).bindSame fun _ => ?_
    refine (sceneContent_shifts exact hlike _ hplain.children).bind fun content => ?_
    exact closeScene_shifts exact id _ start explicit content
  unfold run at h ⊢
  cases hm : scene setting id el {} with
  | error stop =>
      rw [hm] at h
      cases h
  | ok r =>
      rw [hm] at h
      cases h
      have hm' := hscene hm
      rw [show Draft.shifted d {} = ({} : Draft T) from rfl] at hm'
      rw [hm']
      rfl

/-- A scene of twice the usual pace with a cue, a layer, and a sequence in a stack. -/
def paced (start : String) : Element where
  tag := "scene"
  attributes := [("id", "intro"), ("start", start), ("timeScale", "2")]
  children := [
    { tag := "cue", attributes := [("id", "hello"), ("start", "1s"), ("duration", "500ms")] },
    { tag := "pause", attributes := [("seconds", "0.25")] },
    { tag := "layer"
      attributes := [("id", "front"), ("start", "1/3")]
      children := [{ tag := "image" }] },
    { tag := "stack"
      children := [{
        tag := "sequence"
        attributes := [("start", "2s"), ("defaultChildDuration", "3s")]
        children := [{ tag := "box" }, { tag := "box", attributes := [("duration", "1")] }] }] }]

/-- A first scene, at the usual pace. -/
def opening : Setting Rat where
  known := { fps := .int 24 }
  takenCues := []
  isFirst := true
  scale := 1

theorem scene_shifts_paced : (∃ s, run opening "intro" (paced "5") = .ok s ∧
    run opening "intro" (paced "5.5") = .ok (s.shifted (1 / 2))) := by
  have hruns : (run opening "intro" (paced "5")).toOption.any (fun _ => true) = true := by
    decide +kernel
  obtain ⟨s, hs, -⟩ := exists_ok_of_any hruns
  have hx : evaluateTime opening.known "5" = .ok 5 := by decide +kernel
  have hx' : evaluateTime opening.known "5.5" = .ok (TimeScalar.add 5 (1 / 2)) := by
    decide +kernel
  exact ⟨s, hs, scene_shifts TimeScalar.exact_rat ⟨rfl, rfl, rfl⟩ "intro" rfl (by decide)
    (by decide +kernel) (by decide) hx (by decide +kernel) hx' hs⟩

end Attempt

end Cuesheet
