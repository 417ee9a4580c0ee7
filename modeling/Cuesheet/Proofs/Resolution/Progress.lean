import Cuesheet.Proofs.Resolution.Knowledge
import Cuesheet.Resolution.Schedule
import Mathlib.Data.List.Nodup

/-!
# What is known from the scenes resolved so far

A progress is `Of` a storyboard if its scenes stand at their places and no cue id occurs twice.
Then looking a time up finds the one scene or cue that has the id (`scene?_eq_some`,
`cueStart?_eq_some`), so a progress that has more scenes knows more (`setting_le`), and an attempt
against it comes out the same unless it waited (`attempt_settled`).
-/

namespace Cuesheet

/-- The scene ids of a storyboard are distinct. -/
def Storyboard.Distinct {T : Type} (board : Storyboard T) : Prop := (board.scenes.map (·.1)).Nodup

namespace Progress

variable {T : Type}

/-! ## Scenes by index -/

/-- Every scene of the first is at its place in the second. -/
def Le (progress more : Progress T) : Prop :=
  ∀ i s, progress.at? i = some s → more.at? i = some s

theorem mem_scenes {progress : Progress T} {s : Scene T} :
    s ∈ progress.scenes ↔ ∃ i, progress.at? i = some s := by
  unfold scenes
  rw [List.mem_filterMap]
  constructor
  · rintro ⟨o, ho, rfl⟩
    obtain ⟨i, hi⟩ := List.mem_iff_getElem?.mp ho
    exact ⟨i, by rw [at?, hi]; rfl⟩
  · rintro ⟨i, hi⟩
    exact ⟨some s, List.mem_iff_getElem?.mpr ⟨i, Option.join_eq_some_iff.mp hi⟩, rfl⟩

theorem lt_length_of_at? {progress : Progress T} {i : Nat} {s : Scene T}
    (h : progress.at? i = some s) : i < progress.length := by
  by_contra hlt
  rw [at?, List.getElem?_eq_none (Nat.le_of_not_lt hlt)] at h
  cases h

theorem at?_set_self {progress : Progress T} {i : Nat} (hi : i < progress.length)
    (o : Option (Scene T)) : at? (List.set progress i o) i = o := by
  rw [at?, List.getElem?_set_self hi]; rfl

theorem at?_set_ne {progress : Progress T} {i j : Nat} (hij : i ≠ j) (o : Option (Scene T)) :
    at? (List.set progress i o) j = progress.at? j := by
  rw [at?, List.getElem?_set_ne hij]; rfl

/-- The scenes at the other places. -/
theorem at?_set_none {progress : Progress T} {i j : Nat} {s : Scene T} :
    at? (List.set progress i none) j = some s ↔ j ≠ i ∧ progress.at? j = some s := by
  by_cases hij : i = j
  · subst hij
    constructor
    · intro h
      rw [at?_set_self (by simpa using lt_length_of_at? h)] at h
      cases h
    · exact fun h => absurd rfl h.1
  · rw [at?_set_ne hij]
    exact ⟨fun h => ⟨fun hji => hij hji.symm, h⟩, fun h => h.2⟩

/-- Two progresses of one storyboard with the same scenes are the same. -/
theorem ext_at? {progress more : Progress T} (hlen : progress.length = more.length)
    (h : ∀ i, progress.at? i = more.at? i) : progress = more := by
  refine List.ext_getElem hlen fun i hi hi' => ?_
  have hat := h i
  rw [at?, at?, List.getElem?_eq_getElem hi, List.getElem?_eq_getElem hi'] at hat
  exact hat

theorem at?_map_some (scenes : List (Scene T)) (i : Nat) :
    at? (scenes.map some) i = scenes[i]? := by
  rw [at?, List.getElem?_map]
  cases scenes[i]? <;> rfl

/-! ## Progress on a storyboard -/

/-- The scenes stand at their places, and cue ids are distinct over all of them. -/
structure Of (progress : Progress T) (board : Storyboard T) : Prop where
  length : progress.length = board.scenes.length
  id : ∀ {i : Nat} {s : Scene T}, progress.at? i = some s →
    (board.scenes[i]?).map (·.1) = some s.id
  nodup : ∀ {i : Nat} {s : Scene T}, progress.at? i = some s → (s.cues.map Cue.id).Nodup
  disjoint : ∀ {i j : Nat} {s s' : Scene T}, progress.at? i = some s → progress.at? j = some s' →
    ∀ id ∈ s.cues.map Cue.id, id ∈ s'.cues.map Cue.id → i = j

namespace Of

variable {board : Storyboard T} {progress more : Progress T}

/-- An id names one place. -/
theorem index_unique (h : progress.Of board) (hd : board.Distinct) {i j : Nat} {s s' : Scene T}
    (hi : progress.at? i = some s) (hj : progress.at? j = some s') (hid : s.id = s'.id) :
    i = j := by
  have hlt : i < (board.scenes.map (·.1)).length := by
    rw [List.length_map, ← h.length]; exact lt_length_of_at? hi
  refine (List.getElem?_inj hlt hd).mp ?_
  rw [List.getElem?_map, List.getElem?_map, h.id hi, h.id hj, hid]

theorem scene?_eq_some (h : progress.Of board) (hd : board.Distinct) {id : String}
    {s : Scene T} : progress.scene? id = some s ↔ s.id = id ∧ ∃ i, progress.at? i = some s := by
  constructor
  · intro hs
    have hid := List.find?_some hs
    exact ⟨eq_of_beq hid, mem_scenes.mp (List.mem_of_find?_eq_some hs)⟩
  · rintro ⟨rfl, i, hi⟩
    cases hf : progress.scene? s.id with
    | none =>
        have := List.find?_eq_none.mp hf s (mem_scenes.mpr ⟨i, hi⟩)
        exact absurd (beq_self_eq_true s.id) this
    | some s' =>
        obtain ⟨j, hj⟩ := mem_scenes.mp (List.mem_of_find?_eq_some hf)
        have hid := List.find?_some hf
        obtain rfl := h.index_unique hd hi hj (eq_of_beq hid).symm
        exact hj.symm.trans hi

theorem cueStart?_eq_some (h : progress.Of board) {id : String} {t : T} :
    progress.cueStart? id = some t ↔
      ∃ i s, progress.at? i = some s ∧ ∃ c ∈ s.cues, c.id = id ∧ c.start = some t := by
  have hto : ∀ {t : T}, progress.cueStart? id = some t →
      ∃ i s, progress.at? i = some s ∧ ∃ c ∈ s.cues, c.id = id ∧ c.start = some t := by
    intro t ht
    obtain ⟨c, hc, hct⟩ := List.exists_of_findSome?_eq_some ht
    obtain ⟨s, hs, hcs⟩ := List.mem_flatMap.mp hc
    obtain ⟨i, hi⟩ := mem_scenes.mp hs
    split at hct
    · exact ⟨i, s, hi, c, hcs, eq_of_beq ‹_›, hct⟩
    · cases hct
  refine ⟨hto, ?_⟩
  rintro ⟨i, s, hi, c, hc, rfl, hct⟩
  cases hf : progress.cueStart? c.id with
  | none =>
      have hmem : c ∈ progress.scenes.flatMap Scene.cues :=
        List.mem_flatMap.mpr ⟨s, mem_scenes.mpr ⟨i, hi⟩, hc⟩
      have hnone := List.findSome?_eq_none_iff.mp hf c hmem
      rw [if_pos (beq_self_eq_true c.id), hct] at hnone
      cases hnone
  | some t' =>
      -- whoever has the id is in the same scene, and there ids are distinct
      obtain ⟨j, s', hj, c', hc', hid, hct'⟩ := hto hf
      obtain rfl : i = j := h.disjoint hi hj c.id (List.mem_map_of_mem hc)
        (hid ▸ List.mem_map_of_mem hc')
      obtain rfl : s = s' := Option.some.inj (hi.symm.trans hj)
      obtain rfl : c' = c := List.inj_on_of_nodup_map (h.nodup hi) hc' hc hid
      exact hct'.symm.trans hct

theorem mem_cueIds {id : String} :
    id ∈ progress.cueIds ↔ ∃ i s, progress.at? i = some s ∧ id ∈ s.cues.map Cue.id := by
  unfold cueIds
  rw [List.mem_flatMap]
  constructor
  · rintro ⟨s, hs, hid⟩
    obtain ⟨i, hi⟩ := mem_scenes.mp hs
    exact ⟨i, s, hi, hid⟩
  · rintro ⟨i, s, hi, hid⟩
    exact ⟨s, mem_scenes.mpr ⟨i, hi⟩, hid⟩

/-! ## More scenes, more knowledge -/

/-- The scene before the one at an index. -/
def before? (progress : Progress T) (index : Nat) : Option (Scene T) :=
  if index = 0 then none else progress.at? (index - 1)

theorem before?_le (hle : progress.Le more) {index : Nat} {s : Scene T}
    (hs : before? progress index = some s) : before? more index = some s := by
  unfold before? at hs ⊢
  split
  · rw [if_pos ‹_›] at hs; cases hs
  · rw [if_neg ‹_›] at hs; exact hle _ _ hs

/-- Whoever has more scenes knows more. The scene before is known whole or not at all. -/
theorem setting_le [TimeScalar T] (h : progress.Of board) (hmore : more.Of board)
    (hd : board.Distinct) (hle : progress.Le more) (index : Nat) :
    (board.setting progress index).Le (board.setting more index) where
  known := by
    have hscene : ∀ {id : String} {s : Scene T},
        progress.scene? id = some s → more.scene? id = some s := by
      intro id s hs
      obtain ⟨hid, i, hi⟩ := (h.scene?_eq_some hd).mp hs
      exact (hmore.scene?_eq_some hd).mpr ⟨hid, i, hle _ _ hi⟩
    have hstart : ∀ {id : String} {t : T}, (progress.scene? id).map Scene.start = some t →
        (more.scene? id).map Scene.start = some t := by
      intro id t ht
      obtain ⟨s, hs, hst⟩ := Option.map_eq_some_iff.mp ht
      rw [hscene hs, Option.map_some, hst]
    have hcue : ∀ {id : String} {t : T},
        progress.cueStart? id = some t → more.cueStart? id = some t := by
      intro id t ht
      obtain ⟨i, s, hi, hc⟩ := h.cueStart?_eq_some.mp ht
      exact hmore.cueStart?_eq_some.mpr ⟨i, s, hle _ _ hi, hc⟩
    refine ⟨rfl, fun r t hr => ?_⟩
    cases r with
    | scene id => exact hstart hr
    | sceneStart id => exact hstart hr
    | sceneEnd id =>
        obtain ⟨s, hs, hst⟩ := Option.bind_eq_some_iff.mp hr
        exact Option.bind_eq_some_iff.mpr ⟨s, hscene hs, hst⟩
    | cue id => exact hcue hr
    | cueStart id => exact hcue hr
    | prevStart =>
        obtain ⟨s, hs, hst⟩ := Option.map_eq_some_iff.mp hr
        exact Option.map_eq_some_iff.mpr ⟨s, before?_le hle hs, hst⟩
    | prevEnd =>
        obtain ⟨s, hs, hst⟩ := Option.bind_eq_some_iff.mp hr
        exact Option.bind_eq_some_iff.mpr ⟨s, before?_le hle hs, hst⟩
    | nextStart =>
        obtain ⟨s, hs, hst⟩ := Option.map_eq_some_iff.mp hr
        exact Option.map_eq_some_iff.mpr ⟨s, hle _ _ hs, hst⟩
  previous := by
    intro t ht
    obtain ⟨s, hs, -⟩ := Option.map_eq_some_iff.mp ht
    show (before? more index).bind Scene.stop = (before? progress index).bind Scene.stop
    rw [before?_le hle hs]
    exact congrArg (Option.bind · Scene.stop) hs.symm
  taken := by
    intro id hid
    obtain ⟨i, s, hi, hs⟩ := mem_cueIds.mp hid
    exact mem_cueIds.mpr ⟨i, s, hle _ _ hi, hs⟩
  isFirst := rfl
  scale := rfl

/-- A new scene with free cue ids may join. -/
theorem set (h : progress.Of board) {index : Nat} {s : Scene T}
    (hid : (board.scenes[index]?).map (·.1) = some s.id) (hnodup : (s.cues.map Cue.id).Nodup)
    (hfree : ∀ id ∈ s.cues.map Cue.id, id ∉ progress.cueIds) :
    Of (List.set progress index (some s)) board := by
  have hlt : index < progress.length := by
    obtain ⟨e, he, -⟩ := Option.map_eq_some_iff.mp hid
    rw [h.length]
    exact (List.getElem?_eq_some_iff.mp he).1
  have hcases : ∀ {i : Nat} {s' : Scene T}, at? (List.set progress index (some s)) i = some s' →
      i = index ∧ s' = s ∨ i ≠ index ∧ progress.at? i = some s' := by
    intro i s' hi
    by_cases hii : index = i
    · subst hii
      rw [at?_set_self hlt] at hi
      exact .inl ⟨rfl, (Option.some.inj hi).symm⟩
    · rw [at?_set_ne hii] at hi
      exact .inr ⟨fun he => hii he.symm, hi⟩
  have hold : ∀ {i : Nat} {s' : Scene T}, progress.at? i = some s' → ∀ id ∈ s.cues.map Cue.id,
      id ∉ s'.cues.map Cue.id :=
    fun hi id hs hs' => hfree id hs (mem_cueIds.mpr ⟨_, _, hi, hs'⟩)
  refine ⟨by rw [List.length_set, h.length], ?_, ?_, ?_⟩
  · intro i s' hi
    rcases hcases hi with ⟨rfl, rfl⟩ | ⟨-, hi⟩
    · exact hid
    · exact h.id hi
  · intro i s' hi
    rcases hcases hi with ⟨rfl, rfl⟩ | ⟨-, hi⟩
    · exact hnodup
    · exact h.nodup hi
  · intro i j s' s'' hi hj id hs' hs''
    rcases hcases hi with ⟨rfl, rfl⟩ | ⟨-, hi'⟩ <;> rcases hcases hj with ⟨rfl, rfl⟩ | ⟨-, hj'⟩
    · rfl
    · exact absurd hs'' (hold hj' id hs')
    · exact absurd hs' (hold hi' id hs'')
    · exact h.disjoint hi' hj' id hs' hs''

/-- Scenes may leave. -/
theorem of_le {progress more : Progress T} (h : more.Of board)
    (hlen : progress.length = more.length) (hle : progress.Le more) : progress.Of board where
  length := hlen.trans h.length
  id hi := h.id (hle _ _ hi)
  nodup hi := h.nodup (hle _ _ hi)
  disjoint hi hj := h.disjoint (hle _ _ hi) (hle _ _ hj)

end Of

end Progress

/-! ## Attempts against a progress -/

namespace Storyboard

variable {T : Type} [TimeScalar T] {board : Storyboard T} {progress more : Progress T}
  {index : Nat} {s : Scene T}

/-- An attempt gives the scene of its place, with cue ids that were free. -/
theorem attempt_spec (h : board.attempt progress index = .ok s) :
    (board.scenes[index]?).map (·.1) = some s.id ∧ (s.cues.map Cue.id).Nodup ∧
      ∀ id ∈ s.cues.map Cue.id, id ∉ progress.cueIds := by
  unfold attempt at h
  split at h
  · cases h
  · rename_i id el hel
    obtain ⟨rfl, hcues⟩ := Attempt.run_spec _ h
    rw [hel, hcues.ids]
    exact ⟨rfl, hcues.nodup, hcues.fresh⟩

theorem attempt_wrong {fault : ResolutionFault}
    (h : board.attempt progress index = .error (.wrong fault)) : fault.OfScene := by
  unfold attempt at h
  split at h
  · cases h; trivial
  · exact Attempt.run_wrong _ h

/-- An attempt comes out the same against more scenes, unless it waited, or one of the new scenes
has taken the id of a cue. -/
theorem attempt_settled (h : progress.Of board) (hmore : more.Of board) (hd : board.Distinct)
    (hle : progress.Le more) (index : Nat) :
    Settled (fun fault => ∃ e ∈ board.scenes[index]?, ∃ cue ∈ Attempt.cueIdsOf e.2.children,
      cue ∈ more.cueIds ∧ fault = .duplicateCue cue)
      (board.attempt progress index) (board.attempt more index) := by
  unfold attempt
  cases hel : board.scenes[index]? with
  | none => exact .same _
  | some e =>
      refine Attempt.run_settled (h.setting_le hmore hd hle index) e.1 e.2 fun cue hcue hin => ?_
      exact ⟨e, rfl, cue, hcue, hin, rfl⟩

/-- A scene that resolved resolves to the same against more scenes, if they leave its cue ids
free. -/
theorem attempt_ok_of_le (h : progress.Of board) (hmore : more.Of board) (hd : board.Distinct)
    (hle : progress.Le more) (hs : board.attempt progress index = .ok s)
    (hfree : ∀ id ∈ s.cues.map Cue.id, id ∉ more.cueIds) :
    board.attempt more index = .ok s := by
  have hset := attempt_settled h hmore hd hle index
  rw [hs] at hset
  refine hset.ok ?_
  rintro fault ⟨e, he, cue, hcue, hin, -⟩ -
  refine hfree cue ?_ hin
  unfold attempt at hs
  rw [Option.mem_def.mp he] at hs
  exact (Attempt.run_spec _ hs).2.ids ▸ hcue

end Storyboard

end Cuesheet
