import Cuesheet.Proofs.Player.Fitting
import Cuesheet.Proofs.Resolution.Passes
import Cuesheet.Proofs.Stage.Hearing

/-!
# Ticks after a rebind

A player that gets another composition keeps what fits of its memory. At the time of its last tick
the next one is then *quiet* about scenes and cues that are as active as before. Components are
remembered by their places, and one that is at another place is taken for a new one: a tick after
a rebind is quiet about components, too, exactly if each that is visible and the same in both
compositions has kept its place (`rebind_quiet_iff`).
-/

namespace Cuesheet

namespace Composition

variable {T : Type} [TimeScalar T]

/-- Whether a cue with an id is active. -/
def cueActive (c : Composition T) (time : T) (x : String) : Bool :=
  c.timedCues.any fun cue => cue.id == x && cue.isActive time

omit [TimeScalar T] in
/-- No two timed components of a scene have one id. -/
def Unambiguous (c : Composition T) : Prop :=
  ∀ scene ∈ c.scenes, (scene.timedComponents.map TimedComponent.id).Nodup

/-- What is told has nothing about what is the same in two compositions: a scene or cue that is
active in both or in neither, and a timed component of a scene that is active in both. -/
structure Quiet (c c' : Composition T) (time : T) (told : List Occurrence) : Prop where
  scenes : ∀ x, ((c.activeScene? time).map Scene.id = some x ↔
      (c'.activeScene? time).map Scene.id = some x) →
    .sceneStart x ∉ told ∧ .sceneEnd x ∉ told
  cues : ∀ x, c.cueActive time x = c'.cueActive time x → .cueStart x ∉ told ∧ .cueEnd x ∉ told
  components : ∀ scene scene', c.activeScene? time = some scene →
    c'.activeScene? time = some scene' → scene.id = scene'.id →
      ∀ component ∈ scene.timedComponents, component ∈ scene'.timedComponents →
        ∀ visible, .visibility scene.id component.id visible ∉ told

/-- The visible components of a scene that is active in two compositions, as far as they are the
same in both, stand at the same places. -/
def InPlace (c c' : Composition T) (time : T) : Prop :=
  ∀ scene scene', c.activeScene? time = some scene → c'.activeScene? time = some scene' →
    scene.id = scene'.id →
      ∀ (i j : Nat) (component : TimedComponent T), scene.timedComponents[i]? = some component →
        scene'.timedComponents[j]? = some component → component.isVisible time = true → i = j

variable {c c' : Composition T} {m : Memory} {time : T} {fps : Number} {x : String}

/-! ## Scenes and cues -/

/-- A tick remembers the scene that is active, and what is kept of it is there. -/
theorem scene_quiet (h : (c.activeScene? time).map Scene.id = some x ↔
      (c'.activeScene? time).map Scene.id = some x) :
    .sceneStart x ∉ (c'.turns time fps ((c.ticked time m).kept c')).map Turn.occurrence ∧
      .sceneEnd x ∉ (c'.turns time fps ((c.ticked time m).kept c')).map Turn.occurrence := by
  rw [sceneStart_mem_turns, sceneEnd_mem_turns]
  constructor
  · rintro ⟨hactive, hforgotten⟩
    obtain ⟨scene, hscene, rfl⟩ := Option.map_eq_some_iff.mp hactive
    exact hforgotten ((Memory.scene_kept (activeScene?_mem hscene)).mpr (h.mpr hactive))
  · rintro ⟨hkept, hinactive⟩
    obtain ⟨scene, hscene, rfl⟩ := ((c.ticked time m).fits_kept c').scene x hkept
    exact hinactive (h.mp ((Memory.scene_kept hscene).mp hkept))

omit [TimeScalar T] in
theorem Distinct.timedCues (h : c.Distinct) : (c.timedCues.map TimedCue.id).Nodup := by
  refine List.pairwise_map.mpr ((List.pairwise_map.mp h.cues).filterMap _ ?_)
  intro cue cue' hne timed htimed timed' htimed'
  obtain ⟨start, -, rfl⟩ := Option.map_eq_some_iff.mp htimed
  obtain ⟨start', -, rfl⟩ := Option.map_eq_some_iff.mp htimed'
  exact hne

theorem Distinct.cueActive_eq (h : c.Distinct) {cue : TimedCue T} (hmem : cue ∈ c.timedCues) :
    c.cueActive time cue.id = cue.isActive time := by
  rw [Bool.eq_iff_iff, cueActive, List.any_eq_true]
  constructor
  · rintro ⟨cue', hmem', hactive⟩
    obtain ⟨hid, hactive⟩ := Bool.and_eq_true_iff.mp hactive
    rwa [← List.inj_on_of_nodup_map h.timedCues hmem' hmem (eq_of_beq hid)]
  · exact fun hactive => ⟨cue, hmem, by rw [beq_self_eq_true, hactive]; rfl⟩

/-- A tick remembers the cues that are active, and no others. -/
theorem Distinct.contains_ticked (h : c.Distinct) (hm : m.Fits c) :
    (c.ticked time m).cues.contains x = c.cueActive time x := by
  refine Composition.contains_ticked (fun cue hmem hid => ?_) ?_
  · rw [← hid, h.cueActive_eq hmem]
  · by_cases hx : ∃ cue ∈ c.timedCues, cue.id = x
    · exact .inl hx
    · have hnone : ∀ cue ∈ c.timedCues, cue.id ≠ x := fun cue hmem hid => hx ⟨cue, hmem, hid⟩
      refine .inr ((hm.contains_eq_false hnone).trans (Eq.symm ?_))
      rw [cueActive, List.any_eq_false]
      intro cue hmem hactive
      exact hnone cue hmem (eq_of_beq (Bool.and_eq_true_iff.mp hactive).1)

theorem cue_quiet (hc : c.Distinct) (hc' : c'.Distinct) (hm : m.Fits c)
    (h : c.cueActive time x = c'.cueActive time x) :
    .cueStart x ∉ (c'.turns time fps ((c.ticked time m).kept c')).map Turn.occurrence ∧
      .cueEnd x ∉ (c'.turns time fps ((c.ticked time m).kept c')).map Turn.occurrence := by
  refine cue_notMem_turns fun cue hmem hid => ?_
  subst hid
  rw [Memory.contains_kept hmem, hc.contains_ticked hm, h, hc'.cueActive_eq hmem]

/-! ## Components -/

section Components

variable {scene scene' : Scene T} {component : TimedComponent T} {i j : Nat}

omit [TimeScalar T] in
theorem index_unique {components : List (TimedComponent T)} {other : TimedComponent T}
    (h : (components.map TimedComponent.id).Nodup) (hi : components[i]? = some component)
    (hj : components[j]? = some other) (hid : component.id = other.id) : i = j := by
  have hlt : i < (components.map TimedComponent.id).length := by
    rw [List.length_map]
    exact (List.getElem?_eq_some_iff.mp hi).1
  refine (List.getElem?_inj hlt h).mp ?_
  rw [List.getElem?_map, List.getElem?_map, hi, hj, Option.map_some, Option.map_some, hid]

/-- After a tick, a component is remembered as visible if it is, and only at its own place. -/
theorem shows_ticked_iff (hc : c.Distinct) (hids : c.Unambiguous) (hm : m.Fits c)
    (hactive : c.activeScene? time = some scene)
    (hi : scene.timedComponents[i]? = some component) :
    (c.ticked time m).shows (scene.id, j, component.id) = true ↔
      component.isVisible time = true ∧ i = j := by
  have hscene := activeScene?_mem hactive
  by_cases hij : i = j
  · subst hij
    rw [shows_ticked_of_mem (mem_placed.mpr ⟨scene, hactive, i, hi, rfl⟩)]
    exact (and_iff_left rfl).symm
  · refine iff_of_false (fun hshows => ?_) fun h => hij h.2
    rw [(hm.ticked time).shows_eq_false] at hshows
    · cases hshows
    · -- another component of that id there would be the same one
      intro hplace
      obtain ⟨scene', hscene', k, component', hk, heq⟩ := mem_componentKeys.mp hplace
      obtain rfl := List.inj_on_of_nodup_map hc.scenes hscene hscene' (congrArg Prod.fst heq)
      have hjk : j = k := congrArg (fun place => place.2.1) heq
      have hid : component.id = component'.id := congrArg (fun place => place.2.2) heq
      exact hij ((index_unique (hids _ hscene) hi hk hid).trans hjk.symm)

/-- After a rebind a component of the active scene is told about exactly if it is visible and has
another place. -/
theorem visibility_told_iff (hc : c.Distinct) (hids : c.Unambiguous) (hids' : c'.Unambiguous)
    (hm : m.Fits c) (hactive : c.activeScene? time = some scene)
    (hactive' : c'.activeScene? time = some scene') (hsame : scene.id = scene'.id)
    (hi : scene.timedComponents[i]? = some component)
    (hj : scene'.timedComponents[j]? = some component) :
    (∃ visible, .visibility scene.id component.id visible ∈
        (c'.turns time fps ((c.ticked time m).kept c')).map Turn.occurrence) ↔
      component.isVisible time = true ∧ i ≠ j := by
  have hplaced : ((scene'.id, j, component.id), component) ∈ c'.placed time :=
    mem_placed.mpr ⟨scene', hactive', j, hj, rfl⟩
  -- the tick before has left a mark at the old place only, and the rebind has kept it
  have hshows : ((c.ticked time m).kept c').shows (scene'.id, j, component.id) = true ↔
      component.isVisible time = true ∧ i = j := by
    rw [Memory.shows_kept (componentKeys_of_placed hplaced), ← hsame]
    exact shows_ticked_iff hc hids hm hactive hi
  have hturns : component.isVisible time ≠
        ((c.ticked time m).kept c').shows (scene'.id, j, component.id) ↔
      component.isVisible time = true ∧ i ≠ j := by
    rw [Ne, Bool.eq_iff_iff, hshows]
    tauto
  rw [← hturns]
  simp only [visibility_mem_turns]
  constructor
  · rintro ⟨visible, place, other, hmem, hne, -, hid, -⟩
    obtain ⟨scene'', hactive'', k, hk, rfl⟩ := mem_placed.mp hmem
    obtain rfl := Option.some.inj (hactive'.symm.trans hactive'')
    obtain rfl := index_unique (hids' _ (activeScene?_mem hactive')) hj hk hid.symm
    obtain rfl := Option.some.inj (hj.symm.trans hk)
    exact hne
  · exact fun hne => ⟨_, _, component, hplaced, hne, hsame.symm, rfl, rfl⟩

/-- Components that are added after all others of their scene leave those in place. -/
theorem inPlace_of_prefix (hids' : c'.Unambiguous) (h : ∀ scene scene',
    c.activeScene? time = some scene → c'.activeScene? time = some scene' →
      scene.id = scene'.id → scene.timedComponents <+: scene'.timedComponents) :
    c.InPlace c' time := by
  intro scene scene' hactive hactive' hsame i j component hi hj _
  obtain ⟨added, hadded⟩ := h scene scene' hactive hactive' hsame
  have hkept : scene'.timedComponents[i]? = some component := by
    rw [← hadded, List.getElem?_append_left (List.getElem?_eq_some_iff.mp hi).1, hi]
  exact index_unique (hids' _ (activeScene?_mem hactive')) hkept hj rfl

end Components

/-- The tick after a rebind is quiet exactly if what is visible has kept its place. -/
theorem quiet_iff (hc : c.Distinct) (hc' : c'.Distinct) (hids : c.Unambiguous)
    (hids' : c'.Unambiguous) (hm : m.Fits c) :
    c.Quiet c' time ((c'.turns time fps ((c.ticked time m).kept c')).map Turn.occurrence) ↔
      c.InPlace c' time := by
  constructor
  · intro hquiet scene scene' hactive hactive' hsame i j component hi hj hvisible
    by_contra hij
    obtain ⟨visible, htold⟩ :=
      (visibility_told_iff hc hids hids' hm hactive hactive' hsame hi hj).mpr ⟨hvisible, hij⟩
    exact hquiet.components scene scene' hactive hactive' hsame component
      (List.mem_of_getElem? hi) (List.mem_of_getElem? hj) visible htold
  · intro hplace
    refine ⟨fun x => scene_quiet, fun x => cue_quiet hc hc' hm, ?_⟩
    intro scene scene' hactive hactive' hsame component hmem hmem' visible htold
    obtain ⟨i, hi⟩ := List.mem_iff_getElem?.mp hmem
    obtain ⟨j, hj⟩ := List.mem_iff_getElem?.mp hmem'
    obtain ⟨hvisible, hij⟩ :=
      (visibility_told_iff hc hids hids' hm hactive hactive' hsame hi hj).mp ⟨visible, htold⟩
    exact hij (hplace scene scene' hactive hactive' hsame i j component hi hj hvisible)

end Composition

namespace Stage

variable {T C W : Type} [TimeScalar T] {react : React T C W} {key : Nat} {c c' : Composition T}
  {s s₁ s₂ s₃ : Stage T C W} {time : T}

omit [TimeScalar T] in
theorem keeps_runScripts {m : Memory} (haloof : Aloof react key) :
    Keeps (Recalls key c m) (runScripts react key) :=
  (Goes.runScripts (fun hook _ => haloof hook _ c m) key).keeps

/-- A rebind gives a player another composition, and leaves of its memory what fits. -/
theorem rebind_recalls {m : Memory} (haloof : Aloof react key) (h : Recalls key c m s)
    (c' : Composition T) : Recalls key c' (m.kept c') (after (rebind react key c') s) := by
  obtain ⟨p, hp, rfl, rfl⟩ := h
  have hbound : Recalls key c' (p.memory.kept c') (s.modifyPlayer key fun p => p.bind c') := by
    refine ⟨p.bind c', ?_, rfl, p.memory_bind c'⟩
    rw [players_modifyPlayer, hp]
    rfl
  refine Keeps.withPlayer (fun p => ?_) _ hbound
  split
  · split
    · exact .bind (.change fun _ h => h) fun _ => keeps_runScripts haloof
    · exact keeps_runScripts haloof
  · exact .pure ()

/-- A player comes to play a composition: from a fresh memory, through ticks at any times, also if
somebody fails at them, through rebinds, and through whatever leaves alone what it plays and
remembers. -/
inductive Plays (react : React T C W) (key : Nat) : Composition T → Stage T C W → Prop
  | fresh {c : Composition T} {s : Stage T C W} (h : Recalls key c {} s) : Plays react key c s
  | tick {c : Composition T} {s : Stage T C W} (before : Plays react key c s) (time : T) :
      Plays react key c (after (handleTick react key time) s)
  | rebind {c : Composition T} {s : Stage T C W} (before : Plays react key c s)
      (c' : Composition T) : Plays react key c' (after (Stage.rebind react key c') s)
  | between {c : Composition T} {s s' : Stage T C W} (before : Plays react key c s)
      (same : Undisturbed key s s') : Plays react key c s'

/-- A player remembers only what is in the composition that it plays. -/
theorem Plays.fits (haloof : Aloof react key) (h : Plays react key c s) :
    ∃ m, Recalls key c m s ∧ m.Fits c := by
  induction h with
  | fresh h => exact ⟨{}, h, Memory.fits_fresh _⟩
  | tick _ time ih =>
      exact keeps_handleTick haloof (I := fun m => m.Fits _) time
        (fun m fps hm => hm.turns time fps) _ ih
  | rebind _ c' ih =>
      obtain ⟨m, hm, -⟩ := ih
      exact ⟨_, rebind_recalls haloof hm c', m.fits_kept c'⟩
  | between _ same ih =>
      obtain ⟨m, hm, hfits⟩ := ih
      exact ⟨m, same _ _ hm, hfits⟩

theorem transitions_eq {m : Memory} (h : Recalls key c m s) (time : T) :
    ∃ fps, s.transitions key time = (c.turns time fps m).map Turn.occurrence := by
  obtain ⟨p, hp, rfl, rfl⟩ := h
  refine ⟨s.playerFps p, ?_⟩
  unfold transitions
  rw [hp]

/-- A player has ticked at a time and gets another composition. The next tick at that time is
quiet exactly if every component that is visible and the same in both compositions has kept its
place. -/
theorem rebind_quiet_iff (haloof : Aloof react key) (hplays : Plays react key c s)
    (hc : c.Distinct) (hc' : c'.Distinct) (hids : c.Unambiguous) (hids' : c'.Unambiguous)
    (htick : handleTick react key time s = .ok () s₁) (hbefore : Undisturbed key s₁ s₂)
    (hafter : Undisturbed key (after (rebind react key c') s₂) s₃) :
    c.Quiet c' time (s₃.transitions key time) ↔ c.InPlace c' time := by
  obtain ⟨m, hm, hfits⟩ := hplays.fits haloof
  have hticked := hbefore _ _ (handleTick_recalls haloof hm htick)
  have hrebound := hafter _ _ (rebind_recalls haloof hticked c')
  obtain ⟨fps, htold⟩ := transitions_eq hrebound time
  rw [htold]
  exact Composition.quiet_iff hc hc' hids hids' hfits

/-! ## A box that is added to another one -/

def oneBox : Composition Rat := film [take "s" 0 4 [box "b" 0 2]]

def boxAfter : Composition Rat := film [take "s" 0 4 [box "b" 0 2, box "a" 3 4]]

def boxBefore : Composition Rat := film [take "s" 0 4 [box "a" 3 4, box "b" 0 2]]

theorem oneBox_ticked : handleTick still 0 1 (alone oneBox) =
    .ok () (after (handleTick still 0 1) (alone oneBox)) := ok_after (by decide +kernel)

theorem oneBox_distinct : oneBox.Distinct := ⟨by decide, by decide⟩

theorem oneBox_unambiguous : oneBox.Unambiguous := by
  unfold Composition.Unambiguous
  decide +kernel

/-- Nothing is told about the box if another one comes after it. -/
theorem boxAfter_quiet : ∃ s, handleTick still 0 1 (alone oneBox) = .ok () s ∧
    oneBox.Quiet boxAfter 1 ((after (rebind still 0 boxAfter) s).transitions 0 1) := by
  have hids' : boxAfter.Unambiguous := by unfold Composition.Unambiguous; decide +kernel
  refine ⟨_, oneBox_ticked, (rebind_quiet_iff (still_aloof 0) (.fresh ⟨_, rfl, rfl, rfl⟩)
    oneBox_distinct ⟨by decide, by decide⟩ oneBox_unambiguous hids' oneBox_ticked
    (fun _ _ h => h) fun _ _ h => h).mpr ?_⟩
  refine Composition.inPlace_of_prefix hids' fun scene scene' hactive hactive' _ => ?_
  obtain rfl := List.mem_singleton.mp (Composition.activeScene?_mem hactive)
  obtain rfl := List.mem_singleton.mp (Composition.activeScene?_mem hactive')
  exact ⟨_, rfl⟩

/-- The box that was there is told to come into view, though it has been there all the time. -/
theorem boxBefore_told : oneBox.Distinct ∧ boxBefore.Distinct ∧ oneBox.Unambiguous ∧
    boxBefore.Unambiguous ∧ ∃ s, handleTick still 0 1 (alone oneBox) = .ok () s ∧
      ¬ oneBox.Quiet boxBefore 1 ((after (rebind still 0 boxBefore) s).transitions 0 1) := by
  have hids' : boxBefore.Unambiguous := by unfold Composition.Unambiguous; decide +kernel
  refine ⟨oneBox_distinct, ⟨by decide, by decide⟩, oneBox_unambiguous, hids', _, oneBox_ticked,
    fun hquiet => ?_⟩
  obtain ⟨scene, hactive⟩ := Option.isSome_iff_exists.mp
    (by decide +kernel : (oneBox.activeScene? 1).isSome = true)
  obtain ⟨scene', hactive'⟩ := Option.isSome_iff_exists.mp
    (by decide +kernel : (boxBefore.activeScene? 1).isSome = true)
  obtain rfl := List.mem_singleton.mp (Composition.activeScene?_mem hactive)
  obtain rfl := List.mem_singleton.mp (Composition.activeScene?_mem hactive')
  have htold : ((after (rebind still 0 boxBefore)
      (after (handleTick still 0 1) (alone oneBox))).transitions 0 1).any (fun
        | .visibility x y visible => x == "s" && y == "b" && visible
        | _ => false) = true := by decide +kernel
  obtain ⟨occurrence, hmem, hbox⟩ := List.any_eq_true.mp htold
  cases occurrence with
  | visibility x y visible =>
      simp only [Bool.and_eq_true, beq_iff_eq] at hbox
      obtain ⟨⟨rfl, rfl⟩, rfl⟩ := hbox
      exact hquiet.components _ _ hactive hactive' rfl ⟨"b", 0, 2⟩ (.head _)
        (.tail _ (.head _)) true hmem
  | _ => cases hbox

end Stage

end Cuesheet
