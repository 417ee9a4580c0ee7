import Cuesheet.Proofs.Composition.Sampling
import Cuesheet.Proofs.Time.Latest

/-!
# One draw for every random pause

Whatever a composition holds, the draws are taken by its random pauses in document order, one each,
and what is sampled for an item depends on the items in front of it only (`drawsInOrder`). A length
is clipped to the bounds of its pause unless there is no number to clip: where what was drawn is not
a number, neither is the length, and no length is at least a bound that is not a number
(`within_clip_iff`).
-/

namespace Cuesheet

/-! ## Clipped lengths -/

namespace Number

variable {x y z : Float}

theorem le_later (hx : x.isNaN = false) (y : Float) :
    TimeScalar.le x (TimeScalar.later x y) = true := by
  unfold TimeScalar.later
  split
  · rename_i hlt
    exact le_of_lt hlt
  · exact le_refl hx

theorem le_later_right (hx : x.isNaN = false) (hy : y.isNaN = false) :
    TimeScalar.le y (TimeScalar.later x y) = true := by
  unfold TimeScalar.later
  split
  · exact le_refl hy
  · rename_i hlt
    exact le_of_lt_eq_false hy hx (Bool.eq_false_iff.mpr hlt)

theorem earlier_le_right (hx : x.isNaN = false) (hy : y.isNaN = false) :
    TimeScalar.le (TimeScalar.earlier x y) y = true := by
  unfold TimeScalar.earlier
  split
  · exact le_refl hy
  · rename_i hlt
    exact le_of_lt_eq_false hx hy (Bool.eq_false_iff.mpr hlt)

theorem later_le (h : TimeScalar.le x z = true) (h' : TimeScalar.le y z = true) :
    TimeScalar.le (TimeScalar.later x y) z = true := by
  rcases TimeScalar.later_cases x y with hlater | hlater <;> rw [hlater] <;> assumption

theorem le_earlier (h : TimeScalar.le z x = true) (h' : TimeScalar.le z y = true) :
    TimeScalar.le z (TimeScalar.earlier x y) = true := by
  unfold TimeScalar.earlier
  split <;> assumption

theorem isNaN_later (hx : x.isNaN = false) (y : Float) : (TimeScalar.later x y).isNaN = false :=
  (isNaN_of_le (le_later hx y)).2

theorem isNaN_earlier (hx : x.isNaN = false) (y : Float) :
    (TimeScalar.earlier x y).isNaN = false := by
  unfold TimeScalar.earlier
  split
  · rename_i hlt
    exact (isNaN_of_le (le_of_lt hlt)).1
  · exact hx

theorem later_of_isNaN (hx : x.isNaN = true) (y : Float) : TimeScalar.later x y = x :=
  if_neg (by rw [lt_eq_false_of_isNaN (.inl hx)]; decide)

theorem earlier_of_isNaN (hx : x.isNaN = true) (y : Float) : TimeScalar.earlier x y = x :=
  if_neg (by rw [lt_eq_false_of_isNaN (.inr hx)]; decide)

end Number

namespace Pause

variable {min max : Option Float} {t : Float}

/-- A length lies within the bounds of a pause: not below zero, not above the upper bound unless
that is below zero, and not below the lower one unless that is above the upper one. -/
structure Within (min max : Option Float) (t : Float) : Prop where
  nonneg : 0 ≤ t
  atMost : ∀ hi, max = some hi → 0 ≤ hi → t ≤ hi
  atLeast : ∀ lo, min = some lo → (∀ hi, max = some hi → lo ≤ hi) → lo ≤ t

/-- There is something to clip, and something to clip it to: what is drawn is a number, and so is
the lower bound if it stands alone. -/
structure Measured (min max : Option Float) (t : Float) : Prop where
  number : t.isNaN = false
  bound : ∀ lo, min = some lo → max = none → lo.isNaN = false

/-- A length not below the lower bound. -/
def raised (min : Option Float) (t : Float) : Float :=
  match min with
  | some lo => TimeScalar.later t lo
  | none => t

/-- A length not above the upper bound. -/
def lowered (max : Option Float) (t : Float) : Float :=
  match max with
  | some hi => TimeScalar.earlier t hi
  | none => t

theorem clip_eq (min max : Option Float) (t : Float) :
    clip min max t = TimeScalar.later (lowered max (raised min t)) TimeScalar.zero := by
  cases min <;> cases max <;> rfl

theorem isNaN_raised (h : t.isNaN = false) (min : Option Float) : (raised min t).isNaN = false := by
  cases min with
  | none => exact h
  | some lo => exact Number.isNaN_later h lo

theorem isNaN_lowered (h : t.isNaN = false) (max : Option Float) :
    (lowered max t).isNaN = false := by
  cases max with
  | none => exact h
  | some hi => exact Number.isNaN_earlier h hi

theorem clip_of_isNaN (h : t.isNaN = true) (min max : Option Float) : clip min max t = t := by
  have hmin : raised min t = t := by
    cases min with
    | none => rfl
    | some lo => exact Number.later_of_isNaN h lo
  have hmax : lowered max t = t := by
    cases max with
    | none => rfl
    | some hi => exact Number.earlier_of_isNaN h hi
  rw [clip_eq, hmin, hmax, Number.later_of_isNaN h]

/-- A clipped length lies within the bounds exactly if there was a number to clip. -/
theorem within_clip_iff : Within min max (clip min max t) ↔ Measured min max t := by
  constructor
  · intro h
    refine ⟨?_, fun lo hmin hmax => ?_⟩
    · cases hnan : t.isNaN with
      | false => rfl
      | true =>
          have hnonneg := h.nonneg
          rw [clip_of_isNaN hnan] at hnonneg
          rw [← hnan]
          exact (Number.isNaN_of_le (decide_eq_true hnonneg)).2
    · have hle := h.atLeast lo hmin (by rw [hmax]; nofun)
      exact (Number.isNaN_of_le (decide_eq_true hle)).1
  · rintro ⟨hnum, hbound⟩
    have hraised := isNaN_raised hnum min
    have hlowered := isNaN_lowered hraised max
    have hzero : (TimeScalar.zero : Float).isNaN = false := by decide +kernel
    rw [clip_eq]
    refine ⟨?_, fun hi hmax hhi => ?_, fun lo hmin hle => ?_⟩
    · rw [← Number.zero_eq]
      exact of_decide_eq_true (Number.le_later_right hlowered hzero)
    · rw [← Number.zero_eq] at hhi
      have hhi : TimeScalar.le TimeScalar.zero hi = true := decide_eq_true hhi
      have hle : TimeScalar.le (lowered max (raised min t)) hi = true := by
        rw [hmax]
        exact Number.earlier_le_right hraised (Number.isNaN_of_le hhi).2
      exact of_decide_eq_true (Number.later_le hle hhi)
    · have hlo : lo.isNaN = false := by
        cases hmax : max with
        | none => exact hbound lo hmin hmax
        | some hi => exact (Number.isNaN_of_le (decide_eq_true (hle hi hmax))).1
      have habove : TimeScalar.le lo (raised min t) = true := by
        rw [hmin]
        exact Number.le_later_right hnum hlo
      have hwithin : TimeScalar.le lo (lowered max (raised min t)) = true := by
        cases hmax : max with
        | none => exact habove
        | some hi => exact Number.le_earlier habove (decide_eq_true (hle hi hmax))
      exact of_decide_eq_true (Number.le_trans hwithin (Number.le_later hlowered _))

end Pause

/-! ## Keys that follow from the items in front -/

namespace Sampling

variable {T : Type}

/-- The pauses between cues of one scene, among the items of several scenes. -/
def pausesOf (scene : String) (placed : List (String × SceneItem T)) : Nat :=
  placed.countP fun
    | (id, .pause _) => id == scene
    | (_, .cue _) => false

/-- The key of an item of a scene that comes after others. -/
def keyAfter (before : List (String × SceneItem T)) (scene : String) : SceneItem T → String
  | .cue cue => cue.id
  | .pause _ => pauseKey scene (pausesOf scene before)

/-- Items with the scenes they are in, under the keys that follow from those in front. -/
def keyedAfter (before : List (String × SceneItem T)) :
    List (String × SceneItem T) → List (String × SceneItem T)
  | [] => []
  | (scene, item) :: rest =>
    (keyAfter before scene item, item) :: keyedAfter (before ++ [(scene, item)]) rest

theorem keyedAfter_append (before placed more : List (String × SceneItem T)) :
    keyedAfter before (placed ++ more) =
      keyedAfter before placed ++ keyedAfter (before ++ placed) more := by
  induction placed generalizing before with
  | nil => rw [List.nil_append, List.append_nil, keyedAfter, List.nil_append]
  | cons entry rest ih =>
      obtain ⟨scene, item⟩ := entry
      rw [List.cons_append, keyedAfter, ih, keyedAfter, List.cons_append, List.append_assoc,
        List.singleton_append]

/-- What comes later does not count. -/
theorem keyedAfter_take (before placed : List (String × SceneItem T)) (n : Nat) :
    keyedAfter before (placed.take n) = (keyedAfter before placed).take n := by
  induction placed generalizing before n with
  | nil => rw [List.take_nil, keyedAfter, List.take_nil]
  | cons entry rest ih =>
      obtain ⟨scene, item⟩ := entry
      cases n with
      | zero => rfl
      | succ n => rw [List.take_succ_cons, keyedAfter, ih, keyedAfter, List.take_succ_cons]

/-- In a scene of which no pause is in front the keys are those that follow. -/
theorem keyedFrom_eq (scene : String) (items : List (SceneItem T))
    (before : List (String × SceneItem T)) :
    keyedFrom scene (pausesOf scene before) items =
      keyedAfter before (items.map fun item => (scene, item)) := by
  induction items generalizing before with
  | nil => rfl
  | cons item rest ih =>
      rw [List.map_cons, keyedAfter, ← ih]
      cases item with
      | cue cue =>
          have hcount : pausesOf scene (before ++ [(scene, .cue cue)]) = pausesOf scene before := by
            simp [pausesOf]
          rw [keyedFrom, hcount]
          rfl
      | pause p =>
          have hcount : pausesOf scene (before ++ [(scene, .pause p)]) =
              pausesOf scene before + 1 := by
            simp [pausesOf]
          rw [keyedFrom, hcount]
          rfl

theorem keyedFrom_of_cues {scene : String} {items : List (SceneItem T)}
    (h : ∀ p, .pause p ∉ items) (index index' : Nat) :
    keyedFrom scene index items = keyedFrom scene index' items := by
  induction items with
  | nil => rfl
  | cons item rest ih =>
      have hrest : ∀ p, .pause p ∉ rest := fun p hp => h p (List.mem_cons_of_mem _ hp)
      cases item with
      | cue cue => rw [keyedFrom, keyedFrom, ih hrest]
      | pause p => exact absurd List.mem_cons_self (h p)

/-- The first pause of a scene has the first key. -/
theorem pauseKey_mem_keyedFrom {scene : String} {items : List (SceneItem T)} {p : Pause T}
    (h : .pause p ∈ items) (index : Nat) :
    pauseKey scene index ∈ (keyedFrom scene index items).map (·.1) := by
  induction items with
  | nil => cases h
  | cons item rest ih =>
      cases item with
      | cue cue =>
          rw [keyedFrom, List.map_cons]
          rcases List.mem_cons.mp h with h | h
          · cases h
          · exact List.mem_cons_of_mem _ (ih h)
      | pause q => exact List.mem_cons_self

end Sampling

/-- The items of a composition in document order, each with the scene that it is in. -/
def Composition.placedItems {T : Type} (c : Composition T) : List (String × SceneItem T) :=
  c.scenes.flatMap fun scene => scene.items.map fun item => (scene.id, item)

namespace Sampling

variable {T : Type}

theorem keyedItems_eq_keyedAfter {scs : List (Scene T)} (front : List (Scene T))
    (h : (((front ++ scs).flatMap Scene.keyedItems).map (·.1)).Nodup) :
    scs.flatMap Scene.keyedItems =
      keyedAfter (front.flatMap fun scene => scene.items.map fun item => (scene.id, item))
        (scs.flatMap fun scene => scene.items.map fun item => (scene.id, item)) := by
  induction scs generalizing front with
  | nil => rfl
  | cons scene rest ih =>
      have hrest := ih (front ++ [scene]) (by simpa using h)
      rw [List.flatMap_cons, List.flatMap_cons, keyedAfter_append, hrest, List.flatMap_append,
        List.flatMap_singleton]
      congr 1
      rw [← keyedFrom_eq, Scene.keyedItems]
      by_cases hpause : ∃ p, .pause p ∈ scene.items
      · obtain ⟨p, hp⟩ := hpause
        -- a pause in front under the same scene id would have the key of the first one here
        have hnone : pausesOf scene.id (front.flatMap fun scene =>
            scene.items.map fun item => (scene.id, item)) = 0 := by
          rw [pausesOf, List.countP_eq_zero]
          rintro ⟨id, item⟩ hmem hcounts
          obtain ⟨other, hother, hitem⟩ := List.mem_flatMap.mp hmem
          obtain ⟨_, hitem, heq⟩ := List.mem_map.mp hitem
          cases heq
          cases item with
          | cue cue => cases hcounts
          | pause q =>
              have hid : other.id = scene.id := eq_of_beq hcounts
              have hfront : pauseKey scene.id 0 ∈
                  (front.flatMap Scene.keyedItems).map (·.1) := by
                rw [List.map_flatMap, ← hid]
                exact List.mem_flatMap.mpr ⟨other, hother, pauseKey_mem_keyedFrom hitem 0⟩
              have hhere : pauseKey scene.id 0 ∈
                  ((scene :: rest).flatMap Scene.keyedItems).map (·.1) := by
                rw [List.flatMap_cons, List.map_append]
                exact List.mem_append_left _ (pauseKey_mem_keyedFrom hp 0)
              rw [List.flatMap_append, List.map_append] at h
              exact List.disjoint_of_nodup_append h hfront hhere
        rw [hnone]
      · exact keyedFrom_of_cues (not_exists.mp hpause) _ _

/-- Where no key stands twice, the keys are those that follow from the items in front. -/
theorem keyedItems_eq {c : Composition T} (h : (c.keyedItems.map (·.1)).Nodup) :
    c.keyedItems = keyedAfter [] c.placedItems :=
  keyedItems_eq_keyedAfter [] h

variable [TimeScalar T]

theorem samplesAfter_take (draws : Draws T) (entries : List (String × SceneItem T))
    (before : List (Pause T)) (n : Nat) :
    samplesAfter draws before (entries.take n) = (samplesAfter draws before entries).take n := by
  induction entries generalizing before n with
  | nil => rw [List.take_nil, samplesAfter, List.take_nil]
  | cons entry rest ih =>
      obtain ⟨key, item⟩ := entry
      cases n with
      | zero => rfl
      | succ n => rw [List.take_succ_cons, samplesAfter, ih, samplesAfter, List.take_succ_cons]

/-! ## The draws of a composition -/

/-- The random pauses of a composition take the draws one after the other, in document order. -/
structure DrawsInOrder (c : Composition T) (draws : Draws T) : Prop where
  /-- Nothing else is drawn. -/
  drawn : (c.samplePauses draws).2 = Pause.drawn (pausesIn c.keyedItems)
  /-- The draw of a pause is numbered by the random ones in front of it. -/
  sampled : (c.keyedItems.map (·.1)).Nodup → ∀ front key item back,
    c.keyedItems = front ++ (key, item) :: back →
      Entries.value? (c.samplePauses draws).1 key =
        some (item.sampled (lengthsAfter draws (pausesIn front) item.pauses))
  /-- What comes later does not count. -/
  agrees : (c.keyedItems.map (·.1)).Nodup → ∀ (c' : Composition T) n,
    (c'.keyedItems.map (·.1)).Nodup → c'.placedItems.take n = c.placedItems.take n →
      List.take n (c'.samplePauses draws).1 = List.take n (c.samplePauses draws).1

theorem drawsInOrder (c : Composition T) (draws : Draws T) : DrawsInOrder c draws := by
  refine ⟨congrArg Prod.snd (c.samplePauses_eq draws), fun h front key item back hsplit =>
    c.value?_samplePauses draws h hsplit, fun h c' n h' htake => ?_⟩
  rw [c'.samplePauses_of_nodup draws h', c.samplePauses_of_nodup draws h,
    ← samplesAfter_take, ← samplesAfter_take, keyedItems_eq h', keyedItems_eq h,
    ← keyedAfter_take, ← keyedAfter_take, htake]

end Sampling

/-- The draws of a composition are taken in order, and a gaussian pause lasts as its bounds say
exactly if what was drawn for it is a number, and so is a lower bound that stands alone. -/
theorem Sampling.drawn_within_iff (c : Composition Float) (draws : Draws Float) :
    DrawsInOrder c draws ∧ ∀ before mean std min max after,
      pausesIn c.keyedItems = before ++ .gaussian mean std min max :: after →
        (Pause.Within min max ((Pause.gaussian mean std min max).lengthAt
          (draws (before.countP Pause.isRandom))) ↔
            Pause.Measured min max
              (Pause.unclipped mean std (draws (before.countP Pause.isRandom)))) :=
  ⟨drawsInOrder c draws, fun _ _ _ _ _ _ _ => Pause.within_clip_iff⟩

deriving instance DecidableEq for Pause

namespace Resolution

/-- A cue, and a pause after it that lasts two seconds by its bounds and whose mean is a formula. -/
def gauged (scale mean std : String) : Element where
  tag := "vml"
  attributes := [("id", "film"), ("timeScale", scale)]
  children := [{
    tag := "scene"
    attributes := [("id", "intro")]
    children := [
      { tag := "cue", attributes := [("id", "hello"), ("start", "1")] },
      { tag := "pause"
        attributes := [("mean", mean), ("std", std), ("min", "2"), ("max", "2")] }] }]

theorem drawn_within_gauged : ∃ c : Composition Float,
    compose (gauged "1" "cue(hello)" "0.5") = .ok c ∧
      Sampling.pausesIn c.keyedItems = [.gaussian 1 0.5 (some 2) (some 2)] ∧
        Sampling.DrawsInOrder c (fun _ => 1) ∧
          Pause.Within (some 2) (some 2)
            ((Pause.gaussian 1 0.5 (some 2) (some 2)).lengthAt (1 : Float)) := by
  have htest : (compose (gauged "1" "cue(hello)" "0.5")).toOption.any
      (fun c : Composition Float =>
        Sampling.pausesIn c.keyedItems = [.gaussian 1 0.5 (some 2) (some 2)]) = true := by
    decide +kernel
  obtain ⟨c, hc, htest⟩ := exists_ok_of_any htest
  have hpauses := of_decide_eq_true htest
  obtain ⟨hordered, hwithin⟩ := Sampling.drawn_within_iff c fun _ => 1
  have hnumber : (Pause.unclipped 1 0.5 (1 : Float)).isNaN = false := by decide +kernel
  have hmeasured : Pause.Measured (some 2) (some 2) (Pause.unclipped 1 0.5 (1 : Float)) :=
    ⟨hnumber, fun _ _ hnone => by cases hnone⟩
  have hsplit := hwithin [] 1 0.5 (some 2) (some 2) [] hpauses
  exact ⟨c, hc, hpauses, hordered, hsplit.mpr hmeasured⟩

/-- The mean is the difference of two infinities. -/
def unmeasured : Element := gauged "inf" "cue(hello) - cue(hello)" "0"

theorem unmeasured_not_within : ∃ c : Composition Float, compose unmeasured = .ok c ∧
    Sampling.pausesIn c.keyedItems = [.gaussian Float.nan 0 (some 2) (some 2)] ∧
      Entries.value? (c.samplePauses fun _ => 0).1 "intro/pause-0" = some (some Float.nan) ∧
        ¬ Pause.Within (some 2) (some 2) Float.nan := by
  have htest : (compose unmeasured).toOption.any (fun c : Composition Float =>
      Sampling.pausesIn c.keyedItems = [.gaussian Float.nan 0 (some 2) (some 2)] &&
        Entries.value? (c.samplePauses fun _ => 0).1 "intro/pause-0" =
          some (some Float.nan)) = true := by
    decide +kernel
  obtain ⟨c, hc, htest⟩ := exists_ok_of_any htest
  simp only [Bool.and_eq_true, decide_eq_true_eq] at htest
  have hnan : ¬ (0 : Float) ≤ Float.nan := by decide +kernel
  exact ⟨c, hc, htest.1, htest.2, fun hwithin => hnan hwithin.nonneg⟩

end Resolution

end Cuesheet
