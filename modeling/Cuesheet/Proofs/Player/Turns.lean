import Cuesheet.Player.Basic
import Cuesheet.Proofs.Data.Entries

/-!
# What a tick turns

A tick compares what is active with what the player remembers, and every difference is a *turn*:
it changes the memory and is told. Here turns are listed without telling anybody. `ticked` is the
memory after a tick, and the lemmas about `turns` say which occurrences a tick tells:
a component is told about if it is not as visible as its place is remembered to be
(`visibility_mem_turns`), a scene if it is active and not remembered or the other way round
(`sceneStart_mem_turns`, `sceneEnd_mem_turns`), and no cue that is as it is remembered to be
(`cue_notMem_turns`).
-/

namespace Cuesheet

/-- What a player remembers from tick to tick. -/
structure Memory where
  scene : Option String := none
  cues : List String := []
  visible : Entries ComponentKey Bool := []
  deriving Repr

namespace Player

variable {T C : Type}

def memory (p : Player T C) : Memory where
  scene := p.activeScene
  cues := p.activeCues
  visible := p.visible

/-- The player with another memory. -/
def withMemory (p : Player T C) (m : Memory) : Player T C :=
  { p with activeScene := m.scene, activeCues := m.cues, visible := m.visible }

end Player

/-- A difference that a tick finds: what is remembered from then on, and what is told. -/
structure Turn where
  memory : Memory
  occurrence : Occurrence

/-- The memory after some turns. -/
def Turn.last (m : Memory) : List Turn → Memory
  | [] => m
  | turn :: rest => last turn.memory rest

theorem Turn.last_append (m : Memory) (turns more : List Turn) :
    last m (turns ++ more) = last (last m turns) more := by
  induction turns generalizing m with
  | nil => rfl
  | cons turn rest ih => exact ih turn.memory

/-- What holds of all memories that turns lead to holds of the last one. -/
theorem Turn.last_of_all {I : Memory → Prop} {m : Memory} {turns : List Turn} (hm : I m)
    (h : ∀ turn ∈ turns, I turn.memory) : I (last m turns) := by
  induction turns generalizing m with
  | nil => exact hm
  | cons turn rest ih =>
      obtain ⟨hturn, hrest⟩ := List.forall_mem_cons.mp h
      exact ih hturn hrest

variable {T : Type} [TimeScalar T]

namespace Memory

/-- Whether a place is remembered as visible. -/
def shows (m : Memory) (place : ComponentKey) : Bool := (m.visible.value? place).getD false

/-- The memory in which a place is visible or is not. -/
def withPlace (m : Memory) (place : ComponentKey) (visible : Bool) : Memory :=
  { m with visible := m.visible.put place visible }

/-- The components at some places that come into view or go out of it. -/
def componentTurns (time : T) (m : Memory) : List (ComponentKey × TimedComponent T) → List Turn
  | [] => []
  | (place, c) :: rest =>
    if c.isVisible time != m.shows place then
      ⟨m.withPlace place (c.isVisible time), .visibility place.1 c.id (c.isVisible time)⟩ ::
        componentTurns time (m.withPlace place (c.isVisible time)) rest
    else componentTurns time m rest

/-- The cues that start or end. -/
def cueTurns (time : T) (m : Memory) : List (TimedCue T) → List Turn
  | [] => []
  | cue :: rest =>
    if cue.isActive time && !m.cues.contains cue.id then
      ⟨{ m with cues := m.cues ++ [cue.id] }, .cueStart cue.id⟩ ::
        cueTurns time { m with cues := m.cues ++ [cue.id] } rest
    else if m.cues.contains cue.id && !cue.isActive time then
      ⟨{ m with cues := m.cues.filter (· != cue.id) }, .cueEnd cue.id⟩ ::
        cueTurns time { m with cues := m.cues.filter (· != cue.id) } rest
    else cueTurns time m rest

omit [TimeScalar T] in
/-- The end of the remembered scene and the start of the active one, if they differ. -/
def sceneTurns (m : Memory) (active : Option String) : List Turn :=
  if active != m.scene then
    (m.scene.toList.map Occurrence.sceneEnd ++ active.toList.map Occurrence.sceneStart).map
      fun occurrence => ⟨{ m with scene := active }, occurrence⟩
  else []

end Memory

namespace Composition

variable (c : Composition T) (time : T) (fps : Number) (m : Memory)

/-- The timed components of the scene that is active, at their places. -/
def placed : List (ComponentKey × TimedComponent T) :=
  match c.activeScene? time with
  | none => []
  | some scene => keyed scene.id 0 scene.timedComponents

/-- The memory once the components have turned. -/
def looked : Memory := Turn.last m (m.componentTurns time (c.placed time))

/-- The memory once the cues have turned, too. -/
def cued : Memory := Turn.last (c.looked time m) ((c.looked time m).cueTurns time c.timedCues)

/-- The memory after a tick. -/
def ticked : Memory := { c.cued time m with scene := (c.activeScene? time).map Scene.id }

/-- All that a tick finds, in the order in which it is told. -/
def turns : List Turn :=
  m.componentTurns time (c.placed time) ++
    ⟨c.looked time m, .tick fps⟩ ::
      ((c.looked time m).cueTurns time c.timedCues ++
        (c.cued time m).sceneTurns ((c.activeScene? time).map Scene.id))

end Composition

/-! ## Places -/

section Keyed

omit [TimeScalar T]

variable {scene : String} {start index : Nat} {place : ComponentKey} {c : TimedComponent T}
  {cs : List (TimedComponent T)}

theorem mem_keyed : (place, c) ∈ keyed scene start cs ↔
    ∃ i, cs[i]? = some c ∧ place = (scene, start + i, c.id) := by
  induction cs generalizing start with
  | nil => simp [keyed]
  | cons first rest ih =>
      rw [keyed, List.mem_cons, ih]
      constructor
      · rintro (h | ⟨i, hi, rfl⟩)
        · cases h
          exact ⟨0, rfl, rfl⟩
        · exact ⟨i + 1, hi, by rw [Nat.add_right_comm, Nat.add_assoc]⟩
      · rintro ⟨i, hi, rfl⟩
        cases i with
        | zero => cases hi; exact .inl rfl
        | succ i => exact .inr ⟨i, hi, by rw [Nat.add_right_comm, Nat.add_assoc]⟩

theorem keyed_nodup (scene : String) (start : Nat) (cs : List (TimedComponent T)) :
    ((keyed scene start cs).map Prod.fst).Nodup := by
  induction cs generalizing start with
  | nil => exact List.nodup_nil
  | cons first rest ih =>
      rw [keyed, List.map_cons, List.nodup_cons]
      refine ⟨fun hmem => ?_, ih (start + 1)⟩
      obtain ⟨⟨place, c⟩, hplace, heq⟩ := List.mem_map.mp hmem
      obtain ⟨i, -, rfl⟩ := mem_keyed.mp hplace
      have hindex : start + 1 + i = start := congrArg (fun place => place.2.1) heq
      omega

end Keyed

theorem Composition.placed_nodup (c : Composition T) (time : T) :
    ((c.placed time).map Prod.fst).Nodup := by
  unfold placed
  split
  · exact List.nodup_nil
  · exact keyed_nodup _ _ _

/-! ## Components -/

namespace Memory

variable {m : Memory} {time : T} {place place' : ComponentKey} {c : TimedComponent T}
  {cs : List (ComponentKey × TimedComponent T)}

omit [TimeScalar T] in
theorem shows_withPlace {visible : Bool} :
    (m.withPlace place visible).shows place' =
      if place = place' then visible else m.shows place' := by
  unfold shows withPlace
  rw [Entries.value?_put]
  simp only [beq_iff_eq]
  split <;> rfl

/-- The memory after one component was looked at. -/
def saw (time : T) (m : Memory) (place : ComponentKey) (c : TimedComponent T) : Memory :=
  if c.isVisible time != m.shows place then m.withPlace place (c.isVisible time) else m

theorem shows_saw : (m.saw time place c).shows place' =
    if place = place' then c.isVisible time else m.shows place' := by
  unfold saw
  split
  · exact shows_withPlace
  · rename_i h
    split
    · rename_i heq
      rw [← heq]
      simpa using Eq.symm (by simpa using h)
    · rfl

theorem last_componentTurns_cons (time : T) (m : Memory) (place : ComponentKey)
    (c : TimedComponent T) (rest : List (ComponentKey × TimedComponent T)) :
    Turn.last m (m.componentTurns time ((place, c) :: rest)) =
      Turn.last (m.saw time place c) ((m.saw time place c).componentTurns time rest) := by
  rw [componentTurns, saw]
  split <;> rfl

/-- What holds of a memory and is kept by looking at a component holds after every turn. -/
theorem componentTurns_all {I : Memory → Prop} (h : ∀ m place c, (place, c) ∈ cs → I m →
    I (m.saw time place c)) (hm : I m) : ∀ turn ∈ m.componentTurns time cs, I turn.memory := by
  induction cs generalizing m with
  | nil => nofun
  | cons entry rest ih =>
      obtain ⟨place, c⟩ := entry
      have hsaw := h m place c List.mem_cons_self hm
      have hrest := ih (fun m place c hmem => h m place c (List.mem_cons_of_mem _ hmem)) hsaw
      rw [saw] at hsaw hrest
      rw [componentTurns]
      split
      · rename_i hturn
        rw [if_pos hturn] at hsaw hrest
        exact List.forall_mem_cons.mpr ⟨hsaw, hrest⟩
      · rename_i hturn
        rw [if_neg hturn] at hrest
        exact hrest

theorem componentTurns_keeps {I : Memory → Prop} (h : ∀ m place c, (place, c) ∈ cs → I m →
    I (m.saw time place c)) (hm : I m) : I (Turn.last m (m.componentTurns time cs)) :=
  Turn.last_of_all hm (componentTurns_all h hm)

theorem shows_componentTurns_of_notMem (h : place ∉ cs.map Prod.fst) :
    (Turn.last m (m.componentTurns time cs)).shows place = m.shows place := by
  refine componentTurns_keeps (I := fun m' => m'.shows place = m.shows place) ?_ rfl
  intro m' place' c hmem hm'
  rw [shows_saw, if_neg, hm']
  rintro rfl
  exact h (List.mem_map.mpr ⟨(place', c), hmem, rfl⟩)

theorem shows_componentTurns (hnodup : (cs.map Prod.fst).Nodup) (hmem : (place, c) ∈ cs) :
    (Turn.last m (m.componentTurns time cs)).shows place = c.isVisible time := by
  induction cs generalizing m with
  | nil => cases hmem
  | cons entry rest ih =>
      obtain ⟨place', c'⟩ := entry
      obtain ⟨hfirst, hrest⟩ := List.nodup_cons.mp hnodup
      rw [last_componentTurns_cons]
      rcases List.mem_cons.mp hmem with heq | hmem
      · cases heq
        rw [shows_componentTurns_of_notMem hfirst, shows_saw, if_pos rfl]
      · exact ih hrest hmem

theorem mem_componentTurns_cons {rest : List (ComponentKey × TimedComponent T)}
    {occurrence : Occurrence} :
    occurrence ∈ (m.componentTurns time ((place, c) :: rest)).map Turn.occurrence ↔
      (c.isVisible time ≠ m.shows place ∧
        occurrence = .visibility place.1 c.id (c.isVisible time)) ∨
      occurrence ∈ ((m.saw time place c).componentTurns time rest).map Turn.occurrence := by
  rw [componentTurns, saw]
  split
  · rename_i h
    simp [bne_iff_ne.mp h]
  · rename_i h
    have heq : c.isVisible time = m.shows place := by simpa using h
    simp [heq]

/-- A component is told about exactly if its place is remembered otherwise. -/
theorem mem_componentTurns (hnodup : (cs.map Prod.fst).Nodup) {occurrence : Occurrence} :
    occurrence ∈ (m.componentTurns time cs).map Turn.occurrence ↔
      ∃ place c, (place, c) ∈ cs ∧ c.isVisible time ≠ m.shows place ∧
        occurrence = .visibility place.1 c.id (c.isVisible time) := by
  induction cs generalizing m with
  | nil => simp [componentTurns]
  | cons entry rest ih =>
      obtain ⟨place, c⟩ := entry
      obtain ⟨hfirst, hrest⟩ := List.nodup_cons.mp hnodup
      -- what the first component changes is not looked at again
      have hsame : ∀ place' c', (place', c') ∈ rest →
          (m.saw time place c).shows place' = m.shows place' := by
        intro place' c' hmem
        rw [shows_saw, if_neg]
        rintro rfl
        exact hfirst (List.mem_map.mpr ⟨(place, c'), hmem, rfl⟩)
      rw [mem_componentTurns_cons, ih hrest]
      constructor
      · rintro (⟨hne, rfl⟩ | ⟨place', c', hmem, hne, rfl⟩)
        · exact ⟨place, c, List.mem_cons_self, hne, rfl⟩
        · rw [hsame place' c' hmem] at hne
          exact ⟨place', c', List.mem_cons_of_mem _ hmem, hne, rfl⟩
      · rintro ⟨place', c', hmem, hne, rfl⟩
        rcases List.mem_cons.mp hmem with heq | hmem
        · cases heq
          exact .inl ⟨hne, rfl⟩
        · refine .inr ⟨place', c', hmem, ?_, rfl⟩
          rw [hsame place' c' hmem]
          exact hne

theorem scene_componentTurns (time : T) (m : Memory)
    (cs : List (ComponentKey × TimedComponent T)) :
    (Turn.last m (m.componentTurns time cs)).scene = m.scene := by
  refine componentTurns_keeps (I := fun m' => m'.scene = m.scene) (fun m' place c _ h => ?_) rfl
  unfold saw
  split
  · exact h
  · exact h

theorem cues_componentTurns (time : T) (m : Memory)
    (cs : List (ComponentKey × TimedComponent T)) :
    (Turn.last m (m.componentTurns time cs)).cues = m.cues := by
  refine componentTurns_keeps (I := fun m' => m'.cues = m.cues) (fun m' place c _ h => ?_) rfl
  unfold saw
  split
  · exact h
  · exact h

/-! ## Cues -/

variable {cue : TimedCue T} {cues : List (TimedCue T)} {x : String}

/-- The memory after one cue was looked at. -/
def met (time : T) (m : Memory) (cue : TimedCue T) : Memory :=
  if cue.isActive time && !m.cues.contains cue.id then { m with cues := m.cues ++ [cue.id] }
  else if m.cues.contains cue.id && !cue.isActive time then
    { m with cues := m.cues.filter (· != cue.id) }
  else m

theorem contains_met : (m.met time cue).cues.contains x =
    if cue.id = x then cue.isActive time else m.cues.contains x := by
  unfold met
  cases hactive : cue.isActive time with
  | true =>
      cases hold : m.cues.contains cue.id with
      | true =>
          simp only [Bool.not_true, Bool.and_false, Bool.false_eq_true, if_false]
          split
          · rename_i heq
            rw [← heq, hold]
          · rfl
      | false =>
          have hother : ([cue.id].contains x) = decide (cue.id = x) := by simp [eq_comm]
          simp only [Bool.not_false, Bool.and_true, if_true, List.contains_append, hother]
          split
          · rename_i heq
            simp [heq]
          · rename_i hne
            simp [hne]
  | false =>
      cases hold : m.cues.contains cue.id with
      | true =>
          simp only [Bool.false_and, Bool.false_eq_true, if_false, Bool.not_false, Bool.and_true,
            if_true]
          split
          · rename_i heq
            simp [heq]
          · rename_i hne
            rw [Bool.eq_iff_iff]
            simp [Ne.symm hne]
      | false =>
          simp only [Bool.false_and, Bool.false_eq_true, if_false]
          split
          · rename_i heq
            rw [← heq, hold]
          · rfl

theorem last_cueTurns_cons (time : T) (m : Memory) (cue : TimedCue T) (rest : List (TimedCue T)) :
    Turn.last m (m.cueTurns time (cue :: rest)) =
      Turn.last (m.met time cue) ((m.met time cue).cueTurns time rest) := by
  rw [cueTurns, met]
  split
  · rfl
  · split <;> rfl

/-- What holds of a memory and is kept by looking at a cue holds after every turn. -/
theorem cueTurns_all {I : Memory → Prop} (h : ∀ m cue, cue ∈ cues → I m → I (m.met time cue))
    (hm : I m) : ∀ turn ∈ m.cueTurns time cues, I turn.memory := by
  induction cues generalizing m with
  | nil => nofun
  | cons cue rest ih =>
      have hmet := h m cue List.mem_cons_self hm
      have hrest := ih (fun m cue hmem => h m cue (List.mem_cons_of_mem _ hmem)) hmet
      rw [met] at hmet hrest
      rw [cueTurns]
      split
      · rename_i hstart
        rw [if_pos hstart] at hmet hrest
        exact List.forall_mem_cons.mpr ⟨hmet, hrest⟩
      · rename_i hstart
        rw [if_neg hstart] at hmet hrest
        split
        · rename_i hend
          rw [if_pos hend] at hmet hrest
          exact List.forall_mem_cons.mpr ⟨hmet, hrest⟩
        · rename_i hend
          rw [if_neg hend] at hrest
          exact hrest

theorem cueTurns_keeps {I : Memory → Prop} (h : ∀ m cue, cue ∈ cues → I m → I (m.met time cue))
    (hm : I m) : I (Turn.last m (m.cueTurns time cues)) :=
  Turn.last_of_all hm (cueTurns_all h hm)

theorem scene_cueTurns (time : T) (m : Memory) (cues : List (TimedCue T)) :
    (Turn.last m (m.cueTurns time cues)).scene = m.scene := by
  refine cueTurns_keeps (I := fun m' => m'.scene = m.scene) (fun m' cue _ h => ?_) rfl
  unfold met
  split
  · exact h
  · split <;> exact h

theorem visible_cueTurns (time : T) (m : Memory) (cues : List (TimedCue T)) :
    (Turn.last m (m.cueTurns time cues)).visible = m.visible := by
  refine cueTurns_keeps (I := fun m' => m'.visible = m.visible) (fun m' cue _ h => ?_) rfl
  unfold met
  split
  · exact h
  · split <;> exact h

/-- What the cues of one id agree on is what is remembered afterwards. -/
theorem contains_cueTurns {active : Bool} (hcues : ∀ cue ∈ cues, cue.id = x →
    cue.isActive time = active) (hx : (∃ cue ∈ cues, cue.id = x) ∨ m.cues.contains x = active) :
    (Turn.last m (m.cueTurns time cues)).cues.contains x = active := by
  induction cues generalizing m with
  | nil =>
      rcases hx with ⟨cue, hmem, -⟩ | hx
      · cases hmem
      · exact hx
  | cons cue rest ih =>
      rw [last_cueTurns_cons]
      refine ih (fun cue hmem => hcues cue (List.mem_cons_of_mem _ hmem)) ?_
      rw [contains_met]
      by_cases hid : cue.id = x
      · rw [if_pos hid]
        exact .inr (hcues cue List.mem_cons_self hid)
      · rw [if_neg hid]
        rcases hx with ⟨cue', hmem, hid'⟩ | hx
        · rcases List.mem_cons.mp hmem with rfl | hmem
          · exact absurd hid' hid
          · exact .inl ⟨cue', hmem, hid'⟩
        · exact .inr hx

/-- Nothing is told about cues that are as they are remembered to be. -/
theorem cueTurns_quiet (hcues : ∀ cue ∈ cues, cue.id = x →
    cue.isActive time = m.cues.contains x) :
    Occurrence.cueStart x ∉ (m.cueTurns time cues).map Turn.occurrence ∧
      Occurrence.cueEnd x ∉ (m.cueTurns time cues).map Turn.occurrence := by
  induction cues generalizing m with
  | nil => exact ⟨nofun, nofun⟩
  | cons cue rest ih =>
      have hsame : (m.met time cue).cues.contains x = m.cues.contains x := by
        rw [contains_met]
        split
        · rename_i hid
          exact hcues cue List.mem_cons_self hid
        · rfl
      have hrest := ih (m := m.met time cue) fun cue' hmem hid => by
        rw [hsame]
        exact hcues cue' (List.mem_cons_of_mem _ hmem) hid
      -- a cue that turns is another one
      have hother : cue.isActive time ≠ m.cues.contains cue.id → cue.id ≠ x := by
        rintro hne rfl
        exact hne (hcues cue List.mem_cons_self rfl)
      rw [met] at hrest
      rw [cueTurns]
      split
      · rename_i h
        rw [if_pos h] at hrest
        have hid := hother (by simp at h; simp [h])
        simpa [Ne.symm hid] using hrest
      · rename_i h
        rw [if_neg h] at hrest
        split
        · rename_i h'
          rw [if_pos h'] at hrest
          have hid := hother (by simp at h'; simp [h'])
          simpa [Ne.symm hid] using hrest
        · rename_i h'
          rw [if_neg h'] at hrest
          exact hrest

theorem kind_componentTurns {cs : List (ComponentKey × TimedComponent T)} {occurrence : Occurrence}
    (h : occurrence ∈ (m.componentTurns time cs).map Turn.occurrence) :
    occurrence.kind = .visibilityChange := by
  induction cs generalizing m with
  | nil => cases h
  | cons entry rest ih =>
      rw [componentTurns] at h
      split at h
      · rcases List.mem_cons.mp h with rfl | h
        · rfl
        · exact ih h
      · exact ih h

theorem exists_of_mem_cueTurns {occurrence : Occurrence}
    (h : occurrence ∈ (m.cueTurns time cues).map Turn.occurrence) :
    ∃ cue ∈ cues, occurrence = .cueStart cue.id ∨ occurrence = .cueEnd cue.id := by
  induction cues generalizing m with
  | nil => cases h
  | cons cue rest ih =>
      have hrest : ∀ {m : Memory}, occurrence ∈ (m.cueTurns time rest).map Turn.occurrence →
          ∃ other ∈ cue :: rest,
            occurrence = .cueStart other.id ∨ occurrence = .cueEnd other.id := by
        intro m h
        obtain ⟨other, hmem, hother⟩ := ih h
        exact ⟨other, List.mem_cons_of_mem _ hmem, hother⟩
      rw [cueTurns] at h
      split at h
      · rcases List.mem_cons.mp h with rfl | h
        · exact ⟨cue, List.mem_cons_self, .inl rfl⟩
        · exact hrest h
      · split at h
        · rcases List.mem_cons.mp h with rfl | h
          · exact ⟨cue, List.mem_cons_self, .inr rfl⟩
          · exact hrest h
        · exact hrest h

theorem kind_cueTurns {occurrence : Occurrence}
    (h : occurrence ∈ (m.cueTurns time cues).map Turn.occurrence) :
    occurrence.kind = .cueStart ∨ occurrence.kind = .cueEnd := by
  obtain ⟨cue, -, rfl | rfl⟩ := exists_of_mem_cueTurns h
  · exact .inl rfl
  · exact .inr rfl

/-! ## Scenes -/

omit [TimeScalar T] in
theorem mem_sceneTurns {active : Option String} {occurrence : Occurrence} :
    occurrence ∈ (m.sceneTurns active).map Turn.occurrence ↔
      active ≠ m.scene ∧ ((∃ x, m.scene = some x ∧ occurrence = .sceneEnd x) ∨
        ∃ x, active = some x ∧ occurrence = .sceneStart x) := by
  unfold sceneTurns
  split
  · rename_i h
    have hne := bne_iff_ne.mp h
    simp [hne, eq_comm]
  · rename_i h
    have heq : active = m.scene := by simpa using h
    simp [heq]

omit [TimeScalar T] in
theorem memory_sceneTurns {active : Option String} {turn : Turn} (h : turn ∈ m.sceneTurns active) :
    turn.memory = { m with scene := active } := by
  unfold sceneTurns at h
  split at h
  · obtain ⟨occurrence, -, rfl⟩ := List.mem_map.mp h
    rfl
  · cases h

omit [TimeScalar T] in
theorem last_sceneTurns (m : Memory) (active : Option String) :
    Turn.last m (m.sceneTurns active) = { m with scene := active } := by
  unfold sceneTurns
  split
  · rename_i h
    have hne := bne_iff_ne.mp h
    cases hscene : m.scene with
    | none =>
        cases active with
        | none => exact absurd hscene.symm hne
        | some x => rfl
    | some y =>
        cases active with
        | none => rfl
        | some x => rfl
  · rename_i h
    have heq : active = m.scene := by simpa using h
    rw [heq]
    rfl

end Memory

/-! ## A whole tick -/

namespace Composition

variable {c : Composition T} {time : T} {fps : Number} {m : Memory} {x y : String}
  {occurrence : Occurrence}

theorem last_turns (c : Composition T) (time : T) (fps : Number) (m : Memory) :
    Turn.last m (c.turns time fps m) = c.ticked time m := by
  rw [turns, Turn.last_append, Turn.last, Turn.last_append]
  exact (c.cued time m).last_sceneTurns _

theorem mem_turns : occurrence ∈ (c.turns time fps m).map Turn.occurrence ↔
    occurrence ∈ (m.componentTurns time (c.placed time)).map Turn.occurrence ∨
      occurrence = .tick fps ∨
      occurrence ∈ ((c.looked time m).cueTurns time c.timedCues).map Turn.occurrence ∨
      occurrence ∈ ((c.cued time m).sceneTurns ((c.activeScene? time).map Scene.id)).map
        Turn.occurrence := by
  simp only [turns, List.map_append, List.map_cons, List.mem_append, List.mem_cons]

theorem scene_cued (c : Composition T) (time : T) (m : Memory) :
    (c.cued time m).scene = m.scene := by
  rw [cued, Memory.scene_cueTurns, looked, Memory.scene_componentTurns]

theorem cues_looked (c : Composition T) (time : T) (m : Memory) :
    (c.looked time m).cues = m.cues := by
  rw [looked, Memory.cues_componentTurns]

theorem shows_ticked (c : Composition T) (time : T) (m : Memory) (place : ComponentKey) :
    (c.ticked time m).shows place = (c.looked time m).shows place := by
  unfold Memory.shows ticked cued
  rw [Memory.visible_cueTurns]

/-! ### What is told -/

theorem visibility_mem_turns {visible : Bool} :
    .visibility x y visible ∈ (c.turns time fps m).map Turn.occurrence ↔
      ∃ place component, (place, component) ∈ c.placed time ∧
        component.isVisible time ≠ m.shows place ∧
        place.1 = x ∧ component.id = y ∧ component.isVisible time = visible := by
  rw [mem_turns, Memory.mem_componentTurns (c.placed_nodup time)]
  constructor
  · rintro (⟨place, component, hmem, hne, heq⟩ | heq | h | h)
    · cases heq
      exact ⟨place, component, hmem, hne, rfl, rfl, rfl⟩
    · cases heq
    · rcases Memory.kind_cueTurns h with h | h <;> cases h
    · obtain ⟨-, ⟨z, -, heq⟩ | ⟨z, -, heq⟩⟩ := Memory.mem_sceneTurns.mp h <;> cases heq
  · rintro ⟨place, component, hmem, hne, rfl, rfl, rfl⟩
    exact .inl ⟨place, component, hmem, hne, rfl⟩

theorem scene_mem_turns (h : occurrence = .sceneEnd x ∨ occurrence = .sceneStart x) :
    occurrence ∈ (c.turns time fps m).map Turn.occurrence ↔
      (c.activeScene? time).map Scene.id ≠ m.scene ∧
        ((∃ y, m.scene = some y ∧ occurrence = .sceneEnd y) ∨
          ∃ y, (c.activeScene? time).map Scene.id = some y ∧ occurrence = .sceneStart y) := by
  rw [mem_turns, Memory.mem_sceneTurns, scene_cued]
  constructor
  · rintro (hkind | heq | hkind | hscene)
    · have hkind := Memory.kind_componentTurns hkind
      rcases h with rfl | rfl <;> cases hkind
    · rcases h with rfl | rfl <;> cases heq
    · rcases h with rfl | rfl <;> rcases Memory.kind_cueTurns hkind with hkind | hkind <;>
        cases hkind
    · exact hscene
  · exact fun hscene => .inr (.inr (.inr hscene))

/-- The end of a scene is told if it was remembered and is no longer active. -/
theorem sceneEnd_mem_turns : .sceneEnd x ∈ (c.turns time fps m).map Turn.occurrence ↔
    m.scene = some x ∧ (c.activeScene? time).map Scene.id ≠ some x := by
  rw [scene_mem_turns (x := x) (.inl rfl)]
  constructor
  · rintro ⟨hne, ⟨y, hy, heq⟩ | ⟨y, -, heq⟩⟩
    · cases heq
      rw [hy] at hne
      exact ⟨hy, hne⟩
    · cases heq
  · rintro ⟨hx, hne⟩
    rw [← hx] at hne
    exact ⟨hne, .inl ⟨x, hx, rfl⟩⟩

/-- The start of a scene is told if it is active and was not remembered. -/
theorem sceneStart_mem_turns : .sceneStart x ∈ (c.turns time fps m).map Turn.occurrence ↔
    (c.activeScene? time).map Scene.id = some x ∧ m.scene ≠ some x := by
  rw [scene_mem_turns (x := x) (.inr rfl)]
  constructor
  · rintro ⟨hne, ⟨y, -, heq⟩ | ⟨y, hy, heq⟩⟩
    · cases heq
    · cases heq
      rw [hy] at hne
      exact ⟨hy, Ne.symm hne⟩
  · rintro ⟨hx, hne⟩
    rw [← hx] at hne
    exact ⟨Ne.symm hne, .inr ⟨x, hx, rfl⟩⟩

theorem cue_mem_turns (h : occurrence = .cueStart x ∨ occurrence = .cueEnd x) :
    occurrence ∈ (c.turns time fps m).map Turn.occurrence ↔
      occurrence ∈ ((c.looked time m).cueTurns time c.timedCues).map Turn.occurrence := by
  rw [mem_turns, Memory.mem_sceneTurns]
  constructor
  · rintro (hkind | heq | hmem | ⟨-, ⟨y, -, heq⟩ | ⟨y, -, heq⟩⟩)
    · have hkind := Memory.kind_componentTurns hkind
      rcases h with rfl | rfl <;> cases hkind
    · rcases h with rfl | rfl <;> cases heq
    · exact hmem
    · rcases h with rfl | rfl <;> cases heq
    · rcases h with rfl | rfl <;> cases heq
  · exact fun hmem => .inr (.inr (.inl hmem))

/-- Nothing is told about a cue that is as it is remembered to be. -/
theorem cue_notMem_turns (h : ∀ cue ∈ c.timedCues, cue.id = x →
    cue.isActive time = m.cues.contains x) :
    .cueStart x ∉ (c.turns time fps m).map Turn.occurrence ∧
      .cueEnd x ∉ (c.turns time fps m).map Turn.occurrence := by
  rw [← cues_looked c time m] at h
  rw [cue_mem_turns (x := x) (.inl rfl), cue_mem_turns (x := x) (.inr rfl)]
  exact Memory.cueTurns_quiet h

/-! ### What is remembered -/

theorem shows_ticked_of_mem {place : ComponentKey} {component : TimedComponent T}
    (h : (place, component) ∈ c.placed time) :
    (c.ticked time m).shows place = component.isVisible time := by
  rw [shows_ticked, looked, Memory.shows_componentTurns (c.placed_nodup time) h]

theorem shows_ticked_of_notMem {place : ComponentKey}
    (h : place ∉ (c.placed time).map Prod.fst) :
    (c.ticked time m).shows place = m.shows place := by
  rw [shows_ticked, looked, Memory.shows_componentTurns_of_notMem h]

/-- A cue is remembered as the timed cues of its id agree that it is. -/
theorem contains_ticked {active : Bool} (h : ∀ cue ∈ c.timedCues, cue.id = x →
    cue.isActive time = active) (hx : (∃ cue ∈ c.timedCues, cue.id = x) ∨
      m.cues.contains x = active) : (c.ticked time m).cues.contains x = active := by
  refine Memory.contains_cueTurns h ?_
  rw [cues_looked]
  exact hx

end Composition

end Cuesheet
