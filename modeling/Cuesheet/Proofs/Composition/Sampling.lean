import Cuesheet.Composition.Sampling
import Cuesheet.Proofs.Data.Maps
import Cuesheet.Proofs.Number.Digits
import Cuesheet.Proofs.Resolution.Formed

/-!
# What is sampled, item by item

Sampling hands on from pause to pause what has been drawn so far. Written down without that, every
pause has a length of its own for a draw (`Pause.lengthAt`), a random one for the draw that is
numbered by the random ones in front of it (`Sampling.lengthsAfter`), and what is drawn are the
random pauses in document order (`Pause.drawn`). `samplePauses_eq` says so of a composition: the
lengths come from its items one by one, each under its key, whatever comes after them.

The key of a pause between cues tells its scene and its number (`pauseKey_inj`), and neither scenes
nor cues share their ids. So the only keys that can meet are the id of a cue and the key of a pause,
and no sample is lost exactly if none of them do (`losesNothing_iff`).
-/

namespace Cuesheet

section Sampled

variable {T : Type} [TimeScalar T]

/-! ## Pauses -/

namespace Pause

/-- Whether a pause takes a draw. -/
def isRandom : Pause T → Bool
  | .fixed _ => false
  | .gaussian _ std _ _ => TimeScalar.lt TimeScalar.zero std

/-- How long a gaussian pause would last for a draw, were it not clipped. -/
def unclipped (mean std z : T) : T :=
  if TimeScalar.lt TimeScalar.zero std then TimeScalar.add mean (TimeScalar.mul std z) else mean

/-- How long a pause lasts for a draw. -/
def lengthAt (z : T) : Pause T → T
  | .fixed seconds => seconds
  | .gaussian mean std min max => clip min max (unclipped mean std z)

/-- What some pauses draw: the random ones among them, in order. -/
def drawn (ps : List (Pause T)) : Drawn T :=
  ps.filterMap fun
    | .fixed _ => none
    | .gaussian mean std _ _ =>
      if TimeScalar.lt TimeScalar.zero std then some (mean, std) else none

theorem drawn_append (ps qs : List (Pause T)) : drawn (ps ++ qs) = drawn ps ++ drawn qs :=
  List.filterMap_append

theorem length_drawn (ps : List (Pause T)) : (drawn ps).length = ps.countP isRandom := by
  induction ps with
  | nil => rfl
  | cons p rest ih =>
      have hcons : drawn (p :: rest) = drawn [p] ++ drawn rest := drawn_append [p] rest
      rw [hcons, List.length_append, ih, List.countP_cons, Nat.add_comm]
      cases p with
      | fixed seconds => rfl
      | gaussian mean std min max =>
          cases hstd : TimeScalar.lt TimeScalar.zero std <;> simp [drawn, isRandom, hstd]

theorem sample_eq (draws : Draws T) (before : List (Pause T)) (p : Pause T) :
    p.sample draws (drawn before) =
      (p.lengthAt (draws (before.countP isRandom)), drawn (before ++ [p])) := by
  rw [drawn_append, ← length_drawn]
  cases p with
  | fixed seconds => exact congrArg (Prod.mk seconds) (List.append_nil _).symm
  | gaussian mean std min max =>
      cases hstd : TimeScalar.lt TimeScalar.zero std <;>
        simp [sample, lengthAt, unclipped, drawn, hstd]

end Pause

namespace Sampling

/-- The lengths of pauses that come after others: the draw of a pause is numbered by the random
ones in front of it. -/
def lengthsAfter (draws : Draws T) (before : List (Pause T)) : List (Pause T) → List T
  | [] => []
  | p :: rest =>
    p.lengthAt (draws (before.countP Pause.isRandom)) :: lengthsAfter draws (before ++ [p]) rest

theorem sum_eq (draws : Draws T) (ps : List (Pause T)) (before : List (Pause T)) (total : T) :
    sum draws total (Pause.drawn before) ps =
      ((lengthsAfter draws before ps).foldl TimeScalar.add total, Pause.drawn (before ++ ps)) := by
  induction ps generalizing before total with
  | nil => rw [sum, lengthsAfter, List.foldl_nil, List.append_nil]
  | cons p rest ih =>
      rw [sum, Pause.sample_eq]
      dsimp only
      rw [ih, lengthsAfter, List.foldl_cons, List.append_assoc, List.singleton_append]

end Sampling

/-! ## Items -/

/-- The pauses of an item, in order. -/
def SceneItem.pauses : SceneItem T → List (Pause T)
  | .cue c => Sampling.segmentPauses c.segments
  | .pause p => [p]

/-- What is sampled for an item whose pauses have some lengths: for a cue their sum, none if it has
no pauses. -/
def SceneItem.sampled : SceneItem T → List T → Option T
  | .cue _, lengths =>
    if lengths.isEmpty then none else some (lengths.foldl TimeScalar.add TimeScalar.zero)
  | .pause _, lengths => lengths.head?

namespace Sampling

/-- The pauses of some items, in order. -/
def pausesIn (entries : List (String × SceneItem T)) : List (Pause T) :=
  entries.flatMap fun entry => entry.2.pauses

/-- What is sampled for items that come after some pauses, each under its key. -/
def samplesAfter (draws : Draws T) (before : List (Pause T)) :
    List (String × SceneItem T) → Sampled T
  | [] => []
  | (key, item) :: rest =>
    (key, item.sampled (lengthsAfter draws before item.pauses)) ::
      samplesAfter draws (before ++ item.pauses) rest

omit [TimeScalar T] in
theorem pausesIn_cons (key : String) (item : SceneItem T) (rest : List (String × SceneItem T)) :
    pausesIn ((key, item) :: rest) = item.pauses ++ pausesIn rest :=
  List.flatMap_cons

omit [TimeScalar T] in
theorem pausesIn_append (entries more : List (String × SceneItem T)) :
    pausesIn (entries ++ more) = pausesIn entries ++ pausesIn more :=
  List.flatMap_append

theorem samplesAfter_append (draws : Draws T) (entries more : List (String × SceneItem T))
    (before : List (Pause T)) :
    samplesAfter draws before (entries ++ more) =
      samplesAfter draws before entries ++
        samplesAfter draws (before ++ pausesIn entries) more := by
  induction entries generalizing before with
  | nil => rw [List.nil_append, samplesAfter, pausesIn, List.flatMap_nil, List.append_nil]; rfl
  | cons entry rest ih =>
      obtain ⟨key, item⟩ := entry
      rw [List.cons_append, samplesAfter, ih, samplesAfter, pausesIn_cons, List.append_assoc]
      rfl

theorem keys_samplesAfter (draws : Draws T) (entries : List (String × SceneItem T))
    (before : List (Pause T)) :
    Entries.keys (samplesAfter draws before entries) = entries.map (·.1) := by
  induction entries generalizing before with
  | nil => rfl
  | cons entry rest ih =>
      rw [samplesAfter, List.map_cons, ← ih (before ++ entry.2.pauses)]
      rfl

/-- The items of a scene with their keys; `index` counts the pauses between cues. -/
def keyedFrom (scene : String) : Nat → List (SceneItem T) → List (String × SceneItem T)
  | _, [] => []
  | index, .cue cue :: rest => (cue.id, .cue cue) :: keyedFrom scene index rest
  | index, .pause p :: rest =>
    (pauseKey scene index, .pause p) :: keyedFrom scene (index + 1) rest

theorem cueSeconds_eq (draws : Draws T) (before : List (Pause T)) (cue : Cue T) :
    cueSeconds draws (Pause.drawn before) cue =
      ((SceneItem.cue cue).sampled (lengthsAfter draws before (SceneItem.cue cue).pauses),
        Pause.drawn (before ++ (SceneItem.cue cue).pauses)) := by
  have hpauses : (SceneItem.cue cue).pauses = segmentPauses cue.segments := rfl
  rw [hpauses, cueSeconds]
  cases segmentPauses cue.segments with
  | nil => rw [List.append_nil]; rfl
  | cons p rest =>
      dsimp only
      rw [sum_eq]
      rfl

theorem items_eq (draws : Draws T) (scene : String) (its : List (SceneItem T)) (index : Nat)
    (samples : Sampled T) (before : List (Pause T)) :
    items draws scene index (samples, Pause.drawn before) its =
      (samples.putAll (samplesAfter draws before (keyedFrom scene index its)),
        Pause.drawn (before ++ pausesIn (keyedFrom scene index its))) := by
  induction its generalizing index samples before with
  | nil => rw [items, keyedFrom, pausesIn, List.flatMap_nil, List.append_nil]; rfl
  | cons item rest ih =>
      cases item with
      | cue cue =>
          rw [items, cueSeconds_eq]
          dsimp only
          rw [ih, keyedFrom, samplesAfter, pausesIn_cons, List.append_assoc]
          rfl
      | pause p =>
          rw [items, Pause.sample_eq]
          dsimp only
          rw [ih, keyedFrom, samplesAfter, pausesIn_cons, List.append_assoc]
          rfl

end Sampling

/-! ## Compositions -/

/-- The items of a scene with the keys under which they are sampled. -/
def Scene.keyedItems (scene : Scene T) : List (String × SceneItem T) :=
  Sampling.keyedFrom scene.id 0 scene.items

/-- The items of a composition in document order, with the keys under which they are sampled. -/
def Composition.keyedItems (c : Composition T) : List (String × SceneItem T) :=
  c.scenes.flatMap Scene.keyedItems

namespace Sampling

theorem scenes_eq (draws : Draws T) (scs : List (Scene T)) (samples : Sampled T)
    (before : List (Pause T)) :
    scenes draws (samples, Pause.drawn before) scs =
      (samples.putAll (samplesAfter draws before (scs.flatMap Scene.keyedItems)),
        Pause.drawn (before ++ pausesIn (scs.flatMap Scene.keyedItems))) := by
  induction scs generalizing samples before with
  | nil => rw [scenes, List.flatMap_nil, pausesIn, List.flatMap_nil, List.append_nil]; rfl
  | cons scene rest ih =>
      rw [scenes, items_eq, ih, List.flatMap_cons, samplesAfter_append, pausesIn_append,
        List.append_assoc, Entries.putAll, Entries.putAll, Entries.putAll, List.foldl_append]
      rfl

end Sampling

/-- The samples of a composition are those of its items, one after the other, and the draws are
those of all its pauses. -/
theorem Composition.samplePauses_eq (c : Composition T) (draws : Draws T) :
    c.samplePauses draws =
      (Entries.ofList (Sampling.samplesAfter draws [] c.keyedItems),
        Pause.drawn (Sampling.pausesIn c.keyedItems)) :=
  Sampling.scenes_eq draws c.scenes [] []

/-- Where no key stands twice there is one sample for each item, under its key. -/
theorem Composition.samplePauses_of_nodup {c : Composition T} (draws : Draws T)
    (h : (c.keyedItems.map (·.1)).Nodup) :
    (c.samplePauses draws).1 = Sampling.samplesAfter draws [] c.keyedItems := by
  rw [samplePauses_eq]
  refine Entries.ofList_of_nodup ?_
  rw [Sampling.keys_samplesAfter]
  exact h

/-- What is sampled for an item depends on the items in front of it only. -/
theorem Composition.value?_samplePauses {c : Composition T} (draws : Draws T)
    (h : (c.keyedItems.map (·.1)).Nodup) {front back : List (String × SceneItem T)} {key : String}
    {item : SceneItem T} (hsplit : c.keyedItems = front ++ (key, item) :: back) :
    Entries.value? (c.samplePauses draws).1 key =
      some (item.sampled (Sampling.lengthsAfter draws (Sampling.pausesIn front) item.pauses)) := by
  have hkeys : (Entries.keys (Sampling.samplesAfter draws [] c.keyedItems)).Nodup := by
    rw [Sampling.keys_samplesAfter]
    exact h
  rw [samplePauses_of_nodup draws h, Entries.value?_eq_some_iff hkeys, hsplit,
    Sampling.samplesAfter_append]
  exact List.mem_append_right _ List.mem_cons_self

end Sampled

/-! ## Keys of pauses -/

namespace Sampling

/-- Two lists are the same up to a mark and behind it if it does not stand behind it again. -/
theorem append_mark_inj {α : Type} {mark : α} {xs ys us vs : List α} (hus : mark ∉ us)
    (hvs : mark ∉ vs) (h : xs ++ mark :: us = ys ++ mark :: vs) : xs = ys ∧ us = vs := by
  rcases List.append_eq_append_iff.mp h with ⟨middle, hys, hrest⟩ | ⟨middle, hxs, hrest⟩
  · cases middle with
    | nil => exact ⟨by rw [hys, List.append_nil], (List.cons.inj hrest).2⟩
    | cons a middle =>
        refine absurd ?_ hus
        rw [(List.cons.inj hrest).2]
        exact List.mem_append_right _ List.mem_cons_self
  · cases middle with
    | nil => exact ⟨by rw [hxs, List.append_nil], (List.cons.inj hrest).2.symm⟩
    | cons a middle =>
        refine absurd ?_ hvs
        rw [(List.cons.inj hrest).2]
        exact List.mem_append_right _ List.mem_cons_self

theorem hyphen_notMem_natChars (n : Nat) : '-' ∉ Number.natChars n := by
  intro h
  obtain ⟨d, hd, heq⟩ := Number.exists_digit_of_mem_natChars h
  interval_cases d <;> revert heq <;> decide

theorem toList_pauseKey (scene : String) (index : Nat) :
    (pauseKey scene index).toList =
      (scene.toList ++ "/pause".toList) ++ '-' :: Number.natChars index := by
  simp [pauseKey, Number.toList_intText]

/-- The key of a pause tells its scene and its number. -/
theorem pauseKey_inj {scene scene' : String} {m n : Nat}
    (h : pauseKey scene m = pauseKey scene' n) : scene = scene' ∧ m = n := by
  have hlist := congrArg String.toList h
  rw [toList_pauseKey, toList_pauseKey] at hlist
  obtain ⟨hscene, hnumber⟩ :=
    append_mark_inj (hyphen_notMem_natChars m) (hyphen_notMem_natChars n) hlist
  exact ⟨String.toList_injective (List.append_cancel_right hscene), Number.natChars_inj hnumber⟩

end Sampling

variable {T : Type}

/-- How many pauses a scene has between its cues. -/
def Scene.pauseCount (scene : Scene T) : Nat :=
  scene.items.countP fun
    | .pause _ => true
    | .cue _ => false

/-- The keys of the pauses of a scene between its cues. -/
def Scene.pauseKeys (scene : Scene T) : List String :=
  (List.range scene.pauseCount).map (Sampling.pauseKey scene.id)

/-! ## Keys of items -/

namespace Sampling

theorem length_keyedFrom (scene : String) (items : List (SceneItem T)) (index : Nat) :
    (keyedFrom scene index items).length = items.length := by
  induction items generalizing index with
  | nil => rfl
  | cons item rest ih =>
      cases item <;> rw [keyedFrom, List.length_cons, ih, List.length_cons]

/-- The keys of some items are the ids of the cues and the keys of the pauses among them. -/
theorem keys_keyedFrom (scene : String) (items : List (SceneItem T)) (index : Nat) :
    ((keyedFrom scene index items).map (·.1)).Perm
      ((items.filterMap fun
          | .cue cue => some cue.id
          | .pause _ => none) ++
        (List.range' index (items.countP fun
          | .pause _ => true
          | .cue _ => false)).map (pauseKey scene)) := by
  induction items generalizing index with
  | nil => exact .nil
  | cons item rest ih =>
      cases item with
      | cue cue =>
          rw [keyedFrom, List.map_cons, List.filterMap_cons, List.countP_cons]
          exact (ih index).cons cue.id
      | pause p =>
          rw [keyedFrom, List.map_cons, List.filterMap_cons, List.countP_cons, if_pos rfl,
            List.range'_succ, List.map_cons]
          exact ((ih (index + 1)).cons _).trans List.perm_middle.symm

end Sampling

theorem Scene.keys_keyedItems (scene : Scene T) :
    (scene.keyedItems.map (·.1)).Perm (scene.cues.map Cue.id ++ scene.pauseKeys) := by
  have hcues : scene.cues.map Cue.id = scene.items.filterMap fun
      | .cue cue => some cue.id
      | .pause _ => none := by
    rw [cues, List.map_filterMap]
    refine List.filterMap_congr fun item _ => ?_
    cases item <;> rfl
  rw [hcues, pauseKeys, List.range_eq_range']
  exact Sampling.keys_keyedFrom scene.id scene.items 0

namespace Composition

variable {c : Composition T}

/-- The keys of the pauses of a composition between its cues. -/
def pauseKeys (c : Composition T) : List String := c.scenes.flatMap Scene.pauseKeys

theorem keys_keyedItems (c : Composition T) :
    (c.keyedItems.map (·.1)).Perm (c.cues.map Cue.id ++ c.pauseKeys) := by
  rw [keyedItems, cues, pauseKeys, List.map_flatMap, List.map_flatMap]
  refine (List.Perm.flatMap_left _ fun scene _ => scene.keys_keyedItems).trans ?_
  exact (List.flatMap_append_perm c.scenes _ _).symm

theorem length_keyedItems (c : Composition T) :
    c.keyedItems.length = (c.scenes.map fun scene => scene.items.length).sum := by
  rw [keyedItems, List.length_flatMap]
  exact congrArg List.sum (List.map_congr_left fun scene _ =>
    Sampling.length_keyedFrom scene.id scene.items 0)

/-- Pauses between cues do not share their keys. -/
theorem nodup_pauseKeys (h : (c.scenes.map Scene.id).Nodup) : c.pauseKeys.Nodup := by
  refine List.nodup_flatMap.mpr ⟨fun scene _ => ?_, ?_⟩
  · exact List.nodup_range.map fun m n heq => (Sampling.pauseKey_inj heq).2
  · refine (List.pairwise_map.mp h).imp fun {scene other} hne key hkey hother => ?_
    obtain ⟨m, -, rfl⟩ := List.mem_map.mp hkey
    obtain ⟨n, -, heq⟩ := List.mem_map.mp hother
    exact hne (Sampling.pauseKey_inj heq).1.symm

/-- Keys meet only where a cue has the id of a pause. -/
theorem nodup_keys_iff (h : c.Distinct) : (c.keyedItems.map (·.1)).Nodup ↔
    ∀ cue ∈ c.cues, ∀ scene ∈ c.scenes, ∀ index < scene.pauseCount,
      cue.id ≠ Sampling.pauseKey scene.id index := by
  rw [c.keys_keyedItems.nodup_iff, List.nodup_append]
  constructor
  · rintro ⟨-, -, hapart⟩ cue hcue scene hscene index hindex
    refine hapart cue.id (List.mem_map_of_mem hcue) _ (List.mem_flatMap.mpr ⟨scene, hscene, ?_⟩)
    exact List.mem_map_of_mem (List.mem_range.mpr hindex)
  · intro hapart
    refine ⟨h.cues, nodup_pauseKeys h.scenes, fun id hid key hkey => ?_⟩
    obtain ⟨cue, hcue, rfl⟩ := List.mem_map.mp hid
    obtain ⟨scene, hscene, hkey⟩ := List.mem_flatMap.mp hkey
    obtain ⟨index, hindex, rfl⟩ := List.mem_map.mp hkey
    exact hapart cue hcue scene hscene index (List.mem_range.mp hindex)

/-- Sampling gives one length for each cue and for each pause between cues, and each is that of its
own item. -/
structure LosesNothing [TimeScalar T] (c : Composition T) (draws : Draws T) : Prop where
  keys : Entries.keys (c.samplePauses draws).1 = c.keyedItems.map (·.1)
  distinct : (Entries.keys (c.samplePauses draws).1).Nodup
  count : (c.samplePauses draws).1.length = (c.scenes.map fun scene => scene.items.length).sum
  own : ∀ front key item back, c.keyedItems = front ++ (key, item) :: back →
    Entries.value? (c.samplePauses draws).1 key =
      some (item.sampled (Sampling.lengthsAfter draws (Sampling.pausesIn front) item.pauses))

variable [TimeScalar T]

theorem losesNothing_of_nodup (h : (c.keyedItems.map (·.1)).Nodup) (draws : Draws T) :
    c.LosesNothing draws := by
  have hkeys : Entries.keys (c.samplePauses draws).1 = c.keyedItems.map (·.1) := by
    rw [samplePauses_of_nodup draws h, Sampling.keys_samplesAfter]
  have hcount := congrArg List.length hkeys
  rw [Entries.keys, List.length_map, List.length_map, length_keyedItems] at hcount
  exact ⟨hkeys, hkeys ▸ h, hcount, fun _ _ _ _ => c.value?_samplePauses draws h⟩

/-- No sample of a resolved composition is lost exactly if no cue has an id that is the key of a
pause between cues. -/
theorem losesNothing_iff {root : Element} (h : Resolution.compose root = .ok c)
    (draws : Draws T) : c.LosesNothing draws ↔
      ∀ cue ∈ c.cues, ∀ scene ∈ c.scenes, ∀ index < scene.pauseCount,
        cue.id ≠ Sampling.pauseKey scene.id index := by
  rw [← nodup_keys_iff (Resolution.compose_distinct h)]
  exact ⟨fun hall => hall.keys ▸ hall.distinct, fun hnodup => losesNothing_of_nodup hnodup draws⟩

end Composition

namespace Resolution

/-- A scene with a cue and a pause after it. -/
def interlude (cue : String) : Element where
  tag := "vml"
  attributes := [("id", "film")]
  children := [{
    tag := "scene"
    attributes := [("id", "intro")]
    children := [
      { tag := "cue", attributes := [("id", cue)] },
      { tag := "pause", attributes := [("seconds", "1")] }] }]

theorem losesNothing_interlude : ∃ c : Composition Float,
    compose (interlude "hello") = .ok c ∧ (c.cues.length = 1 ∧ c.pauseKeys.length = 1) ∧
      ∀ draws, c.LosesNothing draws := by
  have htest : (compose (interlude "hello")).toOption.any (fun c : Composition Float =>
      (c.cues.length = 1 && c.pauseKeys.length = 1) &&
        c.cues.all fun cue => c.scenes.all fun scene =>
          (List.range scene.pauseCount).all fun index =>
            cue.id != Sampling.pauseKey scene.id index) = true := by
    decide +kernel
  obtain ⟨c, hc, htest⟩ := exists_ok_of_any htest
  simp only [Bool.and_eq_true, decide_eq_true_eq] at htest
  refine ⟨c, hc, htest.1, fun draws => (Composition.losesNothing_iff hc draws).mpr ?_⟩
  intro cue hcue scene hscene index hindex
  have hscenes := List.all_eq_true.mp htest.2 cue hcue
  have hindices := List.all_eq_true.mp hscenes scene hscene
  exact bne_iff_ne.mp (List.all_eq_true.mp hindices index (List.mem_range.mpr hindex))

/-- The sample of the pause takes the place of that of the cue. -/
theorem interlude_loses : ∃ c : Composition Float,
    compose (interlude "intro/pause-0") = .ok c ∧
      (c.scenes.map fun scene => scene.items.length).sum = 2 ∧
        (c.samplePauses fun _ => 0).1 = [("intro/pause-0", some 1)] ∧
          ¬ c.LosesNothing fun _ => 0 := by
  have htest : (compose (interlude "intro/pause-0")).toOption.any (fun c : Composition Float =>
      (c.scenes.map fun scene => scene.items.length).sum = 2 &&
        (c.samplePauses fun _ => 0).1 = [("intro/pause-0", some 1)]) = true := by
    decide +kernel
  obtain ⟨c, hc, htest⟩ := exists_ok_of_any htest
  simp only [Bool.and_eq_true, decide_eq_true_eq] at htest
  obtain ⟨hitems, hsamples⟩ := htest
  refine ⟨c, hc, hitems, hsamples, fun hall => ?_⟩
  have hcount := hall.count
  rw [hsamples, hitems] at hcount
  cases hcount

end Resolution

end Cuesheet
