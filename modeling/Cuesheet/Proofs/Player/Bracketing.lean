import Cuesheet.Proofs.Player.Turns

/-!
# Starts and ends

What a player tells is read event by event: a scene may start if none is started, it may end if it
is the one that is started (`Occurrence.followScene`), and the same for a cue
(`Occurrence.followCue`). A tick that is cut short, because somebody fails who is told a turn, has
remembered the turn but not told the next ones. For cues that does no harm, each turn of a cue
tells all of it. A change of scenes however is remembered at once and told in two turns: if the
first one is cut short the start is lost, and the next change tells the end of a scene whose start
was never told. `Heard.bracketed_iff` says that nothing else goes wrong.
-/

namespace Cuesheet

/-! ## Reading events -/

namespace Occurrence

/-- The scene that is started and not ended once an event took place; nothing if the event is out
of place. -/
def followScene : Option String → Occurrence → Option (Option String)
  | none, sceneStart x => some (some x)
  | some _, sceneStart _ => none
  | started, sceneEnd x => if started = some x then some none else none
  | started, _ => some started

/-- Whether a cue is started and not ended once an event took place; nothing if the event is out
of place. -/
def followCue (x : String) : Bool → Occurrence → Option Bool
  | started, cueStart y => if y = x then (if started then none else some true) else some started
  | started, cueEnd y => if y = x then (if started then some false else none) else some started
  | started, _ => some started

def isScene : Occurrence → Bool
  | sceneStart _ => true
  | sceneEnd _ => true
  | _ => false

theorem followScene_of_not_isScene {occurrence : Occurrence} (h : occurrence.isScene = false)
    (started : Option String) : followScene started occurrence = some started := by
  cases occurrence <;> cases started <;> first | rfl | cases h

theorem foldlM_followScene {occurrences : List Occurrence}
    (h : ∀ occurrence ∈ occurrences, occurrence.isScene = false) (started : Option String) :
    occurrences.foldlM followScene started = some started := by
  induction occurrences with
  | nil => rfl
  | cons occurrence rest ih =>
      obtain ⟨hfirst, hrest⟩ := List.forall_mem_cons.mp h
      rw [List.foldlM_cons, followScene_of_not_isScene hfirst]
      exact ih hrest

end Occurrence

/-- Every end of a scene comes after its start, no scene starts while another one is started, and
the starts and ends of each cue alternate, beginning with a start. -/
structure WellBracketed (occurrences : List Occurrence) : Prop where
  scenes : (occurrences.foldlM Occurrence.followScene none).isSome = true
  cues : ∀ x, (occurrences.foldlM (Occurrence.followCue x) false).isSome = true

/-! ## Cues -/

/-- Turns tell of cues just what they remember of them. -/
def Turn.CuesFollow (m : Memory) : List Turn → Prop
  | [] => True
  | turn :: rest =>
    (∀ x, turn.occurrence.followCue x (m.cues.contains x) =
      some (turn.memory.cues.contains x)) ∧ CuesFollow turn.memory rest

namespace Turn.CuesFollow

variable {m : Memory} {turns more : List Turn}

theorem append : CuesFollow m (turns ++ more) ↔
    CuesFollow m turns ∧ CuesFollow (last m turns) more := by
  induction turns generalizing m with
  | nil => simp [CuesFollow, last]
  | cons turn rest ih => simp only [List.cons_append, CuesFollow, last, ih, and_assoc]

/-- Turns that leave the cues alone and tell nothing about them. -/
theorem of_others (h : ∀ turn ∈ turns, turn.memory.cues = m.cues ∧
    ∀ x started, turn.occurrence.followCue x started = some started) : CuesFollow m turns := by
  induction turns generalizing m with
  | nil => trivial
  | cons turn rest ih =>
      obtain ⟨⟨hcues, htold⟩, hrest⟩ := List.forall_mem_cons.mp h
      refine ⟨fun x => ?_, ih fun other hother => ?_⟩
      · rw [htold, hcues]
      · obtain ⟨hcues', htold'⟩ := hrest other hother
        exact ⟨hcues'.trans hcues.symm, htold'⟩

theorem foldlM (h : CuesFollow m turns) (x : String) :
    (turns.map Turn.occurrence).foldlM (Occurrence.followCue x) (m.cues.contains x) =
      some ((last m turns).cues.contains x) := by
  induction turns generalizing m with
  | nil => rfl
  | cons turn rest ih =>
      obtain ⟨hfirst, hrest⟩ := h
      rw [List.map_cons, List.foldlM_cons, hfirst x]
      exact ih hrest

end Turn.CuesFollow

variable {T : Type} [TimeScalar T]

namespace Memory

variable {m : Memory} {time : T}

theorem cueTurns_follow (cues : List (TimedCue T)) :
    Turn.CuesFollow m (m.cueTurns time cues) := by
  induction cues generalizing m with
  | nil => trivial
  | cons cue rest ih =>
      rw [cueTurns]
      split
      · rename_i hstart
        refine ⟨fun x => ?_, ih⟩
        have hnew : cue.id ∉ m.cues := by simp at hstart; exact hstart.2
        by_cases hid : cue.id = x
        · subst hid
          simp [Occurrence.followCue, hnew]
        · simp [Occurrence.followCue, hid, Ne.symm hid]
      · split
        · rename_i hend
          refine ⟨fun x => ?_, ih⟩
          have hold : cue.id ∈ m.cues := by simp at hend; exact hend.1
          by_cases hid : cue.id = x
          · subst hid
            simp [Occurrence.followCue, hold]
          · simp [Occurrence.followCue, hid, Ne.symm hid]
        · exact ih

theorem scene_saw (time : T) (m : Memory) (place : ComponentKey) (c : TimedComponent T) :
    (m.saw time place c).scene = m.scene := by
  unfold saw
  split <;> rfl

theorem cues_saw (time : T) (m : Memory) (place : ComponentKey) (c : TimedComponent T) :
    (m.saw time place c).cues = m.cues := by
  unfold saw
  split <;> rfl

theorem scene_met (time : T) (m : Memory) (cue : TimedCue T) :
    (m.met time cue).scene = m.scene := by
  unfold met
  split
  · rfl
  · split <;> rfl

theorem occurrence_componentTurns {cs : List (ComponentKey × TimedComponent T)} :
    ∀ turn ∈ m.componentTurns time cs,
      turn.occurrence.isScene = false ∧
        ∀ x started, turn.occurrence.followCue x started = some started := by
  intro turn hturn
  have hkind := kind_componentTurns (List.mem_map_of_mem (f := Turn.occurrence) hturn)
  cases hoccurrence : turn.occurrence with
  | visibility scene component visible => exact ⟨rfl, fun _ _ => rfl⟩
  | _ => rw [hoccurrence] at hkind; cases hkind

end Memory

namespace Composition

variable (c : Composition T) (time : T) (fps : Number) (m : Memory)

/-- All that a tick finds before it looks at the scene. -/
def beforeScene : List Turn :=
  m.componentTurns time (c.placed time) ++
    ⟨c.looked time m, .tick fps⟩ :: (c.looked time m).cueTurns time c.timedCues

theorem turns_eq : c.turns time fps m = c.beforeScene time fps m ++
    (c.cued time m).sceneTurns ((c.activeScene? time).map Scene.id) := by
  simp [turns, beforeScene]

theorem last_beforeScene : Turn.last m (c.beforeScene time fps m) = c.cued time m := by
  rw [beforeScene, Turn.last_append]
  rfl

/-- Nothing is told about scenes, and nothing about them changes, before the scene is looked at. -/
theorem beforeScene_sceneless : ∀ turn ∈ c.beforeScene time fps m,
    turn.occurrence.isScene = false ∧ turn.memory.scene = m.scene := by
  have hlooked : (c.looked time m).scene = m.scene := Memory.scene_componentTurns _ _ _
  intro turn hturn
  rcases List.mem_append.mp hturn with hturn | hturn
  · refine ⟨(Memory.occurrence_componentTurns turn hturn).1, ?_⟩
    exact Memory.componentTurns_all (I := fun m' => m'.scene = m.scene)
      (fun m' place c _ hm' => (Memory.scene_saw time m' place c).trans hm') rfl turn hturn
  · rcases List.mem_cons.mp hturn with rfl | hturn
    · exact ⟨rfl, hlooked⟩
    · refine ⟨?_, ?_⟩
      · obtain ⟨cue, -, hcue | hcue⟩ := Memory.exists_of_mem_cueTurns
          (List.mem_map_of_mem (f := Turn.occurrence) hturn)
        · rw [hcue]; rfl
        · rw [hcue]; rfl
      · exact Memory.cueTurns_all (I := fun m' => m'.scene = m.scene)
          (fun m' cue _ hm' => (Memory.scene_met time m' cue).trans hm') hlooked turn hturn

theorem turns_follow : Turn.CuesFollow m (c.turns time fps m) := by
  rw [turns_eq, Turn.CuesFollow.append, beforeScene, Turn.CuesFollow.append]
  refine ⟨⟨.of_others fun turn hturn => ⟨?_, (Memory.occurrence_componentTurns turn hturn).2⟩,
    fun x => rfl, Memory.cueTurns_follow _⟩, .of_others fun turn hturn => ?_⟩
  · exact Memory.componentTurns_all (I := fun m' => m'.cues = m.cues)
      (fun m' place c _ hm' => (Memory.cues_saw time m' place c).trans hm') rfl turn hturn
  · have hmemory := Memory.memory_sceneTurns hturn
    have htold := Memory.mem_sceneTurns.mp (List.mem_map_of_mem (f := Turn.occurrence) hturn)
    refine ⟨?_, ?_⟩
    · rw [hmemory, ← beforeScene, last_beforeScene]
    · rcases htold.2 with ⟨x, -, hx⟩ | ⟨x, -, hx⟩
      · rw [hx]
        exact fun _ _ => rfl
      · rw [hx]
        exact fun _ _ => rfl

end Composition

/-! ## Scenes -/

/-- What is told of a change of scenes, as far as it comes. -/
inductive SceneChange : Option String → Option String → List Occurrence → Prop
  | starts (x : String) : SceneChange none (some x) [.sceneStart x]
  | ends (x : String) (next : Option String) : SceneChange (some x) next [.sceneEnd x]
  | turns (x y : String) : SceneChange (some x) (some y) [.sceneEnd x, .sceneStart y]

theorem Memory.sceneTurns_cut {m : Memory} {active : Option String} {done : List Turn}
    (h : done <+: m.sceneTurns active) (hsome : done ≠ []) :
    (Turn.last m done).scene = active ∧
      SceneChange m.scene active (done.map Turn.occurrence) := by
  unfold sceneTurns at h
  split at h
  · rename_i hchange
    cases hscene : m.scene with
    | none =>
        cases active with
        | none => simp [hscene] at hchange
        | some y =>
            rw [hscene] at h
            rcases List.prefix_cons_iff.mp h with rfl | ⟨done', rfl, hdone'⟩
            · exact absurd rfl hsome
            · obtain rfl := List.prefix_nil.mp hdone'
              exact ⟨rfl, .starts y⟩
    | some x =>
        rw [hscene] at h
        rcases List.prefix_cons_iff.mp h with rfl | ⟨done', rfl, hdone'⟩
        · exact absurd rfl hsome
        · cases active with
          | none =>
              obtain rfl := List.prefix_nil.mp hdone'
              exact ⟨rfl, .ends x none⟩
          | some y =>
              rcases List.prefix_cons_iff.mp hdone' with rfl | ⟨done'', rfl, hdone''⟩
              · exact ⟨rfl, .ends x (some y)⟩
              · obtain rfl := List.prefix_nil.mp hdone''
                exact ⟨rfl, .turns x y⟩
  · exact absurd (List.prefix_nil.mp h) hsome

/-- What is told at a tick, up to the first who fails. -/
structure ToldTick (T : Type) where
  time : T
  told : List Occurrence

namespace ToldTick

/-- Nothing is told about scenes. -/
def Sceneless (tick : ToldTick T) : Prop :=
  ∀ occurrence ∈ tick.told, occurrence.isScene = false

/-- The last thing that is told is the end of a scene, although another one is active. -/
def LosesStart (c : Composition T) (tick : ToldTick T) : Prop :=
  (∃ x, tick.told.getLast? = some (.sceneEnd x)) ∧ (c.activeScene? tick.time).isSome = true

end ToldTick

namespace Composition

variable {c : Composition T} {time : T} {fps : Number} {m : Memory} {done : List Turn}

/-- A tick that is cut short has not come to the scene, or it has told of a change of scenes as far
as it came. -/
theorem turns_cut (h : done <+: c.turns time fps m) :
    ((∀ occurrence ∈ done.map Turn.occurrence, occurrence.isScene = false) ∧
        (Turn.last m done).scene = m.scene) ∨
      ∃ before change, done.map Turn.occurrence = before ++ change ∧
        (∀ occurrence ∈ before, occurrence.isScene = false) ∧
        (Turn.last m done).scene = (c.activeScene? time).map Scene.id ∧
        SceneChange m.scene ((c.activeScene? time).map Scene.id) change := by
  have hbefore := c.beforeScene_sceneless time fps m
  have hquiet : ∀ occurrence ∈ (c.beforeScene time fps m).map Turn.occurrence,
      occurrence.isScene = false := by
    intro occurrence hoccurrence
    obtain ⟨turn, hturn, rfl⟩ := List.mem_map.mp hoccurrence
    exact (hbefore turn hturn).1
  obtain ⟨rest, hrest⟩ := h
  rw [turns_eq] at hrest
  rcases List.append_eq_append_iff.mp hrest with ⟨more, hmore, -⟩ | ⟨change, rfl, hchange⟩
  · refine .inl ⟨fun occurrence hoccurrence => hquiet occurrence ?_, ?_⟩
    · rw [hmore, List.map_append]
      exact List.mem_append_left _ hoccurrence
    · refine Turn.last_of_all (I := fun m' => m'.scene = m.scene) rfl fun turn hturn => ?_
      refine (hbefore turn ?_).2
      rw [hmore]
      exact List.mem_append_left _ hturn
  · have hscene : (c.cued time m).scene = m.scene := by
      rw [← last_beforeScene c time fps m]
      exact Turn.last_of_all (I := fun m' => m'.scene = m.scene) rfl
        fun turn hturn => (hbefore turn hturn).2
    cases change with
    | nil =>
        rw [List.append_nil, last_beforeScene]
        exact .inl ⟨hquiet, hscene⟩
    | cons turn rest' =>
        have hbegun : turn :: rest' <+:
            (c.cued time m).sceneTurns ((c.activeScene? time).map Scene.id) := ⟨rest, hchange.symm⟩
        obtain ⟨hlast, hcut⟩ := Memory.sceneTurns_cut hbegun (List.cons_ne_nil _ _)
        refine .inr ⟨_, _, List.map_append, hquiet, ?_, hscene ▸ hcut⟩
        rw [Turn.last_append, last_beforeScene]
        exact hlast

end Composition

namespace SceneChange

variable {old new : Option String} {change : List Occurrence}

/-- A change of scenes is told to its end, or only the end of the old scene is told. -/
theorem follow (h : SceneChange old new change) (before : List Occurrence) :
    (change.foldlM Occurrence.followScene old = some new ∧
        ∀ x, new ≠ none → (before ++ change).getLast? ≠ some (.sceneEnd x)) ∨
      change.foldlM Occurrence.followScene old = some none ∧ new ≠ none ∧
        ∃ x, (before ++ change).getLast? = some (.sceneEnd x) := by
  cases h with
  | starts x => exact .inl ⟨rfl, fun y _ => by simp⟩
  | ends x =>
      have htold : [Occurrence.sceneEnd x].foldlM Occurrence.followScene (some x) =
          some none := by simp [Occurrence.followScene]
      cases new with
      | none => exact .inl ⟨htold, fun y hne => absurd rfl hne⟩
      | some y => exact .inr ⟨htold, nofun, x, by simp⟩
  | turns x y =>
      refine .inl ⟨?_, fun z _ => by simp⟩
      simp [Occurrence.followScene]

/-- If no scene is started, none can change. -/
theorem refused {x : String} (h : SceneChange (some x) new change) :
    change.foldlM Occurrence.followScene none = none := by
  cases h <;> simp [Occurrence.followScene]

theorem not_sceneless (h : SceneChange old new change) :
    ¬ ∀ occurrence ∈ before ++ change, occurrence.isScene = false := by
  intro hquiet
  have hscene : ∃ occurrence ∈ change, occurrence.isScene = true := by
    cases h <;> exact ⟨_, List.mem_cons_self, rfl⟩
  obtain ⟨occurrence, hmem, hscene⟩ := hscene
  rw [hquiet occurrence (List.mem_append_right _ hmem)] at hscene
  cases hscene

end SceneChange

/-! ## Runs -/

namespace Composition

variable {c : Composition T} {ticks : List (ToldTick T)} {m : Memory}

/-- What a player tells at some ticks, each as far as it comes, and what it remembers then. -/
inductive Heard (c : Composition T) : List (ToldTick T) → Memory → Prop
  | nil : Heard c [] {}
  | tick {ticks : List (ToldTick T)} {m : Memory} (heard : Heard c ticks m) (time : T)
      (fps : Number) {done : List Turn} (cut : done <+: c.turns time fps m) :
      Heard c (ticks ++ [⟨time, done.map Turn.occurrence⟩]) (Turn.last m done)

/-- Everything that was told at some ticks. -/
def stream (ticks : List (ToldTick T)) : List Occurrence := ticks.flatMap ToldTick.told

/-- No scene event comes at a later tick than one that lost the start of a scene. -/
def KeepsStarts (c : Composition T) (ticks : List (ToldTick T)) : Prop :=
  ticks.Pairwise fun tick later => tick.LosesStart c → later.Sceneless

omit [TimeScalar T] in
theorem stream_concat (ticks : List (ToldTick T)) (tick : ToldTick T) :
    stream (ticks ++ [tick]) = stream ticks ++ tick.told := by
  simp [stream]

theorem keepsStarts_concat {tick : ToldTick T} : KeepsStarts c (ticks ++ [tick]) ↔
    KeepsStarts c ticks ∧ ∀ earlier ∈ ticks, earlier.LosesStart c → tick.Sceneless := by
  simp [KeepsStarts, List.pairwise_append]

theorem Heard.cues (h : Heard c ticks m) (x : String) :
    (stream ticks).foldlM (Occurrence.followCue x) false = some (m.cues.contains x) := by
  induction h with
  | nil => rfl
  | @tick ticks m _ time fps done cut ih =>
      obtain ⟨rest, hrest⟩ := cut
      have hfollow := c.turns_follow time fps m
      rw [← hrest, Turn.CuesFollow.append] at hfollow
      rw [stream_concat, List.foldlM_append, ih]
      exact hfollow.1.foldlM x

/-- How what was told about scenes stands to what is remembered: they agree; or a start was lost,
and nothing was told since; or something was told since. -/
inductive Standing (c : Composition T) (ticks : List (ToldTick T)) (m : Memory) : Prop
  | agrees (told : (stream ticks).foldlM Occurrence.followScene none = some m.scene)
      (kept : ∀ tick ∈ ticks, ¬ tick.LosesStart c)
  | lost (told : (stream ticks).foldlM Occurrence.followScene none = some none) {x : String}
      (scene : m.scene = some x) (lost : ∃ tick ∈ ticks, tick.LosesStart c)
      (kept : KeepsStarts c ticks)
  | broken (told : (stream ticks).foldlM Occurrence.followScene none = none)
      (lost : ¬ KeepsStarts c ticks)

theorem keepsStarts_of_none (h : ∀ tick ∈ ticks, ¬ tick.LosesStart c) : KeepsStarts c ticks :=
  List.pairwise_of_forall_mem_list fun tick htick _ _ hloses => absurd hloses (h tick htick)

omit [TimeScalar T] in
theorem follow_concat {tick : ToldTick T} {started : Option String}
    (h : (stream ticks).foldlM Occurrence.followScene none = some started) :
    (stream (ticks ++ [tick])).foldlM Occurrence.followScene none =
      tick.told.foldlM Occurrence.followScene started := by
  rw [stream_concat, List.foldlM_append, h]
  rfl

theorem Standing.stays_broken {tick : ToldTick T} {m' : Memory}
    (told : (stream ticks).foldlM Occurrence.followScene none = none)
    (lost : ¬ KeepsStarts c ticks) : Standing c (ticks ++ [tick]) m' := by
  refine .broken ?_ fun hkept => lost (keepsStarts_concat.mp hkept).1
  rw [stream_concat, List.foldlM_append, told]
  rfl

/-- A tick at which nothing is told about scenes. -/
theorem Standing.sceneless (h : Standing c ticks m) {tick : ToldTick T} {m' : Memory}
    (hquiet : tick.Sceneless) (hscene : m'.scene = m.scene) : Standing c (ticks ++ [tick]) m' := by
  have hkeeps : ¬ tick.LosesStart c := by
    rintro ⟨⟨x, hx⟩, -⟩
    cases hquiet _ (List.mem_of_getLast? hx)
  cases h with
  | agrees told kept =>
      refine .agrees ?_ fun tick htick => ?_
      · rw [follow_concat told, hscene, Occurrence.foldlM_followScene hquiet]
      · rcases List.mem_append.mp htick with htick | htick
        · exact kept tick htick
        · rw [List.mem_singleton.mp htick]
          exact hkeeps
  | lost told scene lost kept =>
      obtain ⟨earlier, hearlier, hloses⟩ := lost
      refine .lost ?_ (hscene.trans scene) ⟨earlier, List.mem_append_left _ hearlier, hloses⟩ ?_
      · rw [follow_concat told, Occurrence.foldlM_followScene hquiet]
      · exact keepsStarts_concat.mpr ⟨kept, fun _ _ _ => hquiet⟩
  | broken told lost => exact .stays_broken told lost

/-- A tick at which a change of scenes is told, as far as it comes. -/
theorem Standing.change (h : Standing c ticks m) {tick : ToldTick T} {m' : Memory}
    {before change : List Occurrence} (htold : tick.told = before ++ change)
    (hbefore : ∀ occurrence ∈ before, occurrence.isScene = false)
    (hscene : m'.scene = (c.activeScene? tick.time).map Scene.id)
    (hchange : SceneChange m.scene ((c.activeScene? tick.time).map Scene.id) change) :
    Standing c (ticks ++ [tick]) m' := by
  have hread (started : Option String) : tick.told.foldlM Occurrence.followScene started =
      change.foldlM Occurrence.followScene started := by
    rw [htold, List.foldlM_append, Occurrence.foldlM_followScene hbefore]
    rfl
  have hactive : (c.activeScene? tick.time).isSome = true ↔
      (c.activeScene? tick.time).map Scene.id ≠ none := by
    rw [← Option.isSome_iff_ne_none, Option.isSome_map]
  cases h with
  | agrees told kept =>
      have hkept : KeepsStarts c (ticks ++ [tick]) :=
        keepsStarts_concat.mpr ⟨keepsStarts_of_none kept, fun earlier hearlier hloses =>
          absurd hloses (kept earlier hearlier)⟩
      rcases hchange.follow before with ⟨hwhole, hlast⟩ | ⟨hhalf, hnew, x, hlast⟩
      · refine .agrees ?_ fun tick' htick => ?_
        · rw [follow_concat told, hread, hwhole, hscene]
        · rcases List.mem_append.mp htick with htick | htick
          · exact kept tick' htick
          · obtain rfl := List.mem_singleton.mp htick
            rintro ⟨⟨x, hx⟩, hsome⟩
            rw [htold] at hx
            exact hlast x (hactive.mp hsome) hx
      · obtain ⟨y, hy⟩ := Option.ne_none_iff_exists'.mp hnew
        have hloses : tick.LosesStart c := ⟨⟨x, htold ▸ hlast⟩, hactive.mpr hnew⟩
        refine .lost ?_ (hscene.trans hy) ⟨tick, by simp, hloses⟩ hkept
        rw [follow_concat told, hread, hhalf]
  | lost told scene lost kept =>
      obtain ⟨earlier, hearlier, hloses⟩ := lost
      rw [scene] at hchange
      refine .broken ?_ fun hkept => ?_
      · rw [follow_concat told, hread, hchange.refused]
      · have hquiet := (keepsStarts_concat.mp hkept).2 earlier hearlier hloses
        rw [ToldTick.Sceneless, htold] at hquiet
        exact hchange.not_sceneless hquiet
  | broken told lost => exact .stays_broken told lost

theorem Heard.standing (h : Heard c ticks m) : Standing c ticks m := by
  induction h with
  | nil => exact .agrees rfl nofun
  | tick _ time fps cut ih =>
      rcases turns_cut cut with ⟨hquiet, hscene⟩ | ⟨before, change, htold, hbefore, hscene, hchange⟩
      · exact ih.sceneless hquiet hscene
      · exact ih.change htold hbefore hscene hchange

/-- What is told is well bracketed if and only if nothing is told about scenes at later ticks than
one that loses the start of a scene. -/
theorem Heard.bracketed_iff (h : Heard c ticks m) :
    WellBracketed (stream ticks) ↔ KeepsStarts c ticks := by
  have hcues (x : String) :
      ((stream ticks).foldlM (Occurrence.followCue x) false).isSome = true := by
    rw [h.cues x]
    rfl
  cases h.standing with
  | agrees told kept =>
      exact ⟨fun _ => keepsStarts_of_none kept, fun _ => ⟨by rw [told]; rfl, hcues⟩⟩
  | lost told scene lost kept => exact ⟨fun _ => kept, fun _ => ⟨by rw [told]; rfl, hcues⟩⟩
  | broken told lost =>
      refine ⟨fun hbracketed => ?_, fun hkept => absurd hkept lost⟩
      have hscenes := hbracketed.scenes
      rw [told] at hscenes
      cases hscenes

end Composition

end Cuesheet
