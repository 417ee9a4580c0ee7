import Cuesheet.Proofs.Clock.Sinking
import Cuesheet.Proofs.Stage.Courses
import Cuesheet.Proofs.Stage.Rates

/-!
# Clocks of players that sink

Whatever is done with a clock and with the players on it, one move after the other (`Moved`), the
clock is not below zero, and nobody is told a time below zero, exactly if no move sinks it
(`afloat_iff`): if it is not set to NaN, and no frame takes it to a duration below zero or over
infinity. Callbacks may do the same in between, as long as they do not sink it themselves
(`Buoyant`).
-/

namespace Cuesheet.Stage

variable {C W : Type} {react : React Float C W} {group : String} {stamps : List Float}
  {s s' : Stage Float C W}

/-! ## Stages on which a clock is sound -/

/-- The clock of a group, if it is there, is sound. -/
def Sound (group : String) (stamps : List Float) (s : Stage Float C W) : Prop :=
  ∀ tl, s.timeline? group = some tl → tl.Sound stamps

/-- Callbacks leave a clock sound, whatever else they do. They may fail. -/
def Buoyant (react : React Float C W) (group : String) : Prop :=
  ∀ c notice stamps, Keeps (Sound group stamps) (react c notice)

theorem Sound.modifyTimeline (h : s.Sound group stamps) {other : String}
    {f : Timeline Float (Subscriber C) → Timeline Float (Subscriber C)}
    (hid : ∀ tl, tl.id = other → (f tl).id = other)
    (hf : ∀ tl, s.timeline? other = some tl → tl.Sound stamps → (f tl).Sound stamps) :
    (s.modifyTimeline other f).Sound group stamps := by
  intro tl htl
  rw [timeline?_modifyTimeline s hid] at htl
  split at htl
  · rename_i hother
    subst hother
    obtain ⟨tl', htl', rfl⟩ := Option.map_eq_some_iff.mp htl
    exact hf tl' htl' (h tl' htl')
  · exact h tl htl

theorem hospitable_sound (group : String) (stamps : List Float) :
    Hospitable (Sound group stamps : Stage Float C W → Prop) where
  source _ _ h := h
  rests s other f hf h := by
    refine h.modifyTimeline (fun tl hid => (hf tl).id.trans hid) fun tl _ hsound => ?_
    have hfps : (f tl).fps = tl.fps := congrArg Terms.fps (hf tl).terms
    exact hsound.of_eq (hf tl).time (hf tl).frame hfps (hf tl).last
  seats _ _ _ _ h := h
  tickets s other f hf h := by
    refine h.modifyTimeline (fun tl hid => ?_) fun tl _ hsound => ?_
    · rw [hf tl]
      exact hid
    · rw [hf tl]
      exact hsound.of_eq rfl rfl rfl (.inl rfl)
  made s other settings made hnone hcreate h := by
    intro tl htl
    rw [timeline?_append] at htl
    obtain ⟨-, -, hlast, htime, hframe, hfps⟩ := of_create hcreate
    cases hthere : s.timeline? group with
    | some tl' =>
        rw [hthere] at htl
        cases htl
        exact h tl hthere
    | none =>
        rw [hthere, Option.none_or] at htl
        split at htl
        · cases htl
          refine ⟨⟨?_, hframe.ge⟩, hfps, fun last hsome => ?_⟩
          · rw [htime]
            decide +kernel
          · rw [hlast] at hsome
            cases hsome
        · cases htl

/-! ## Clocks that are rebound and set -/

theorem rebind_sound (hreact : Buoyant react group) (key : Nat) (composition : Composition Float) :
    Keeps (Sound group stamps) (rebind react key composition) :=
  .rebind (fun c notice => hreact c notice stamps) (fun _ _ _ h => h)
    (fun _ _ _ h => h.modifyTimeline (fun _ hid => hid) fun _ _ hsound =>
      hsound.of_eq rfl rfl rfl (.inl rfl)) key composition

/-- A clock that is set is not below zero, unless it is set to NaN. -/
theorem seek_sound (h : s.Sound group stamps) {time : Float}
    (hnan : ∀ tl ∈ s.timeline? group, ¬ time.isNaN = true) :
    (after (seek group time) s).Sound group stamps := by
  cases htl : s.timeline? group with
  | none =>
      have hseek : seek group time s = .ok () s := lookup_none htl ..
      rw [after, hseek]
      exact h
  | some tl =>
      have hsound := h tl htl
      rw [after, seek_eq htl]
      split
      · exact h
      · rename_i habove
        have hzero : (0 : Float).isNaN = false := by decide +kernel
        have htime : TimeScalar.le 0 time = true := by
          rw [Number.zero_eq] at habove
          exact Number.le_of_lt_eq_false hzero (Bool.eq_false_iff.mpr (hnan tl htl))
            (Bool.eq_false_iff.mpr habove)
        cases hnumber : Timeline.frameNumber { tl with time } with
        | error fault =>
            exact h.modifyTimeline (fun _ hid => hid) fun _ _ hsound =>
              ⟨⟨htime, hsound.frame⟩, hsound.fps, hsound.last⟩
        | ok frame =>
            have hframe : 0 ≤ frame := Number.frameAt_nonneg hsound.fps htime hnumber
            exact h.modifyTimeline (fun _ hid => hid) fun _ _ hsound =>
              ⟨⟨htime, hframe⟩, hsound.fps, hsound.last⟩

/-- A clock that is set to NaN is there. -/
theorem seek_nan {tl : Timeline Float (Subscriber C)} (htl : s.timeline? group = some tl)
    {time : Float} (hnan : time.isNaN = true) :
    ∃ tl', (after (seek group time) s).timeline? group = some tl' ∧ tl'.time = time := by
  have hzero : TimeScalar.lt time TimeScalar.zero = false := by
    cases hlt : TimeScalar.lt time TimeScalar.zero with
    | false => rfl
    | true => rw [(Number.isNaN_of_le (Number.le_of_lt hlt)).1] at hnan; cases hnan
  rw [after, seek_eq htl, if_neg (ne_true_of_eq_false hzero)]
  cases Timeline.frameNumber { tl with time } with
  | error fault => exact ⟨_, timeline?_changed htl fun _ hid => hid, rfl⟩
  | ok frame => exact ⟨_, timeline?_changed htl fun _ hid => hid, rfl⟩

/-! ## Frames -/

/-- Timestamps that may be followed by another: all of them are finite, and it is not before any. -/
structure Followed (stamps : List Float) (timestamp : Float) : Prop where
  finite : ∀ t ∈ timestamp :: stamps, t.isFinite = true
  forward : ∀ t ∈ stamps, TimeScalar.le t timestamp = true

theorem tick_sound (hreact : Buoyant react group) (h : s.Sound group stamps)
    {tl : Timeline Float (Subscriber C)} (htl : s.timeline? group = some tl)
    (hrun : tl.running = true) {timestamp : Float}
    (hnonneg : TimeScalar.le 0 (tl.moved timestamp).time = true) :
    (after (tick (hear react) group timestamp) s).Sound group (stamps ++ [timestamp]) := by
  have hid : tl.id = group := timeline?_id htl
  have hlater : s.Sound group (stamps ++ [timestamp]) := fun tl htl => (h tl htl).later timestamp
  have hmoved {frame : Int} (hframe : 0 ≤ frame) :
      (s.moving group tl timestamp frame).Sound group (stamps ++ [timestamp]) :=
    hlater.modifyTimeline (fun _ _ => hid) fun _ _ _ => (h tl htl).moved hnonneg hframe
  rw [after, tick_running htl hrun]
  cases hnumber : (tl.moved timestamp).frameNumber with
  | error fault => exact hmoved (h tl htl).frame
  | ok frame =>
      have hcalm := (hospitable_sound (C := C) (W := W) group (stamps ++ [timestamp])).toCalm
      have hsheltered : Sheltered react (Sound group (stamps ++ [timestamp])) :=
        ⟨fun c notice => hreact c notice _, fun _ _ _ _ h => h⟩
      have hheard := hsheltered.hearEach (tl.moved timestamp).time tl.subscribers _
        (hmoved (Number.frameAt_nonneg (h tl htl).fps hnonneg hnumber))
      dsimp only
      rw [← after, after_ensuring]
      exact hcalm.renew group _ hheard

/-- A frame that does not sink a clock leaves it sound, and tells nobody a time below zero. -/
theorem frame_sound (hreact : Buoyant react group) (h : s.Sound group stamps) {timestamp : Float}
    (hfollowed : Followed stamps timestamp)
    (hsinks : ∀ tl ∈ s.timeline? group, ¬ (tl.running = true ∧ tl.Sinks timestamp)) :
    (after (tick (hear react) group timestamp) s).Sound group (stamps ++ [timestamp]) ∧
      ∀ told ∈ Delivered.notices react group ⟨timestamp, s⟩, TimeScalar.le 0 told.2 = true := by
  have hlater : s.Sound group (stamps ++ [timestamp]) := fun tl htl => (h tl htl).later timestamp
  cases htl : s.timeline? group with
  | none =>
      have htick : tick (hear react) group timestamp s = .ok () s := lookup_none htl ..
      rw [after, htick]
      refine ⟨hlater, ?_⟩
      simp [Delivered.notices, htl]
  | some tl =>
      cases hrun : tl.running with
      | false =>
          rw [after, tick_stopped htl hrun, notices_rests htl hrun]
          refine ⟨hlater.modifyTimeline (fun _ hid => hid) fun _ _ hsound => ?_, by simp⟩
          exact hsound.of_eq rfl rfl rfl (.inl rfl)
      | true =>
          have hreached := (h tl htl).reached hfollowed.finite hfollowed.forward
          have hnonneg := (Timeline.moved_nonneg_iff hreached).mpr
            fun hbelow => hsinks tl htl ⟨hrun, hbelow⟩
          refine ⟨tick_sound hreact h htl hrun hnonneg, fun told htold => ?_⟩
          rw [notices_same htl told htold]
          exact hnonneg

/-- Where a frame takes a clock shows afterwards, or somebody was told. -/
theorem tick_shows {tl : Timeline Float (Subscriber C)} (htl : s.timeline? group = some tl)
    (hrun : tl.running = true) (timestamp : Float) :
    (∃ tl', (after (tick (hear react) group timestamp) s).timeline? group = some tl' ∧
        tl'.time = (tl.moved timestamp).time) ∨
      ∃ told ∈ Delivered.notices react group ⟨timestamp, s⟩,
        told.2 = (tl.moved timestamp).time := by
  have hid : tl.id = group := timeline?_id htl
  cases hnumber : (tl.moved timestamp).frameNumber with
  | error fault =>
      refine .inl ⟨tl.moved timestamp, ?_, rfl⟩
      rw [after, tick_running htl hrun, hnumber]
      exact timeline?_changed htl fun _ _ => hid
  | ok frame =>
      cases hsubs : tl.subscribers with
      | nil =>
          have hmoving : (s.moving group tl timestamp frame).pace? group =
              some (tl.moved timestamp).pace :=
            pace?_modifyTimeline (f := fun _ => { tl.moved timestamp with frame }) htl
              fun _ _ => hid
          obtain ⟨handle, hrenew, -⟩ := renew_pace hmoving
          obtain ⟨tl', htl', hpace⟩ := timeline?_of_pace? hrenew
          have htime : tl'.pace.time = (tl.moved timestamp).time := by
            rw [hpace]
            rfl
          refine .inl ⟨tl', ?_, htime⟩
          rw [after, tick_running htl hrun, hnumber, hsubs]
          exact htl'
      | cons subscriber rest =>
          refine .inr ⟨(⟨group, subscriber, s.moving group tl timestamp frame⟩, _), ?_, rfl⟩
          rw [notices_moving react htl hrun hnumber, hsubs]
          exact List.mem_cons_self

/-! ## What is done with a clock -/

/-- What is done with a clock and with players on it. -/
inductive Motion where
  | mount (key : Nat)
  | unmount (key : Nat)
  | rebind (key : Nat) (composition : Composition Float)
  | start
  | stop
  | seek (time : Float)
  | frame (timestamp : Float)

variable [DecidableEq C]

namespace Motion

def act (react : React Float C W) (group : String) : Motion → Action Float C W Unit
  | mount key => Stage.mount react key
  | unmount key => Stage.unmount key
  | rebind key composition => Stage.rebind react key composition
  | start => Stage.start group
  | stop => Stage.stop group
  | seek time => Stage.seek group time
  | frame timestamp => tick (hear react) group timestamp

def timestamp? : Motion → Option Float
  | frame timestamp => some timestamp
  | _ => none

/-- The clock is set to NaN, or a frame sinks it. -/
def Sinks (tl : Timeline Float (Subscriber C)) : Motion → Prop
  | seek time => time.isNaN = true
  | frame timestamp => tl.running = true ∧ tl.Sinks timestamp
  | _ => False

instance (tl : Timeline Float (Subscriber C)) : (motion : Motion) → Decidable (motion.Sinks tl)
  | seek _ => inferInstanceAs (Decidable (_ = true))
  | frame _ => inferInstanceAs (Decidable (_ ∧ _))
  | mount _ | unmount _ | rebind _ _ | start | stop => inferInstanceAs (Decidable False)

end Motion

/-- What is done, and the stage on which it is done. -/
structure Moment (C W : Type) where
  motion : Motion
  stage : Stage Float C W

namespace Moment

variable (react) (group)

def after (moment : Moment C W) : Stage Float C W :=
  Stage.after (moment.motion.act react group) moment.stage

/-- Whom the clock is told in a moment, and what time that is. -/
def notices (moment : Moment C W) : List (Telling Float C W × Float) :=
  match moment.motion with
  | .frame timestamp => Delivered.notices react group ⟨timestamp, moment.stage⟩
  | _ => []

/-- Neither is the clock below zero after a moment, nor is anybody told so. -/
structure Afloat (moment : Moment C W) : Prop where
  clock : ∀ tl, (moment.after react group).timeline? group = some tl → tl.Afloat
  told : ∀ told ∈ moment.notices react group, TimeScalar.le 0 told.2 = true

/-- What is done sinks the clock as it is. -/
def Sinks (moment : Moment C W) : Prop :=
  ∃ tl ∈ moment.stage.timeline? group, moment.motion.Sinks tl

instance (moment : Moment C W) : Decidable (moment.Sinks group) :=
  inferInstanceAs (Decidable (∃ tl ∈ moment.stage.timeline? group, _))

end Moment

/-- Moments follow each other. Between two of them anything may happen that leaves the clock sound
if it is. -/
inductive Moved (react : React Float C W) (group : String) (s : Stage Float C W) :
    List (Moment C W) → Stage Float C W → Prop
  | none : Moved react group s [] s
  | beside {moments : List (Moment C W)} {s₁ s₂ : Stage Float C W}
      (moved : Moved react group s moments s₁)
      (sound : ∀ stamps, s₁.Sound group stamps → s₂.Sound group stamps) :
      Moved react group s moments s₂
  | move {moments : List (Moment C W)} {s₁ : Stage Float C W}
      (moved : Moved react group s moments s₁) (motion : Motion) :
      Moved react group s (moments ++ [⟨motion, s₁⟩]) (Moment.after react group ⟨motion, s₁⟩)

/-- The timestamps of the frames among some moments. -/
def timestamps (moments : List (Moment C W)) : List Float :=
  moments.filterMap fun moment => moment.motion.timestamp?

/-! ## Moments -/

namespace Moment

variable {moment : Moment C W}

/-- A sound clock comes through a moment, and nobody is told a time below zero, unless the moment
sinks it. -/
theorem sound_of_not_sinks (hreact : Buoyant react group) (hs : moment.stage.Sound group stamps)
    (hfollowed : ∀ timestamp ∈ moment.motion.timestamp?, Followed stamps timestamp)
    (hsinks : ¬ moment.Sinks group) :
    (moment.after react group).Sound group (stamps ++ moment.motion.timestamp?.toList) ∧
      ∀ told ∈ moment.notices react group, TimeScalar.le 0 told.2 = true := by
  obtain ⟨motion, s⟩ := moment
  have hsound : Hospitable (Sound group stamps : Stage Float C W → Prop) :=
    hospitable_sound group stamps
  have hsinks : ∀ tl ∈ s.timeline? group, ¬ motion.Sinks tl := fun tl htl hsinks' =>
    hsinks ⟨tl, htl, hsinks'⟩
  -- whatever is no frame has no timestamp and tells nobody
  have hquiet (hkept : (Moment.after react group ⟨motion, s⟩).Sound group stamps)
      (hnone : motion.timestamp? = none) :
      (Moment.after react group ⟨motion, s⟩).Sound group (stamps ++ motion.timestamp?.toList) ∧
        ∀ told ∈ Moment.notices react group ⟨motion, s⟩, TimeScalar.le 0 told.2 = true := by
    rw [hnone]
    refine ⟨by simpa using hkept, ?_⟩
    cases motion <;> first | exact fun _ htold => absurd htold List.not_mem_nil | cases hnone
  cases motion with
  | mount key => exact hquiet (hsound.mount (fun c notice => hreact c notice stamps) key s hs) rfl
  | unmount key => exact hquiet (hsound.unmount key s hs) rfl
  | rebind key composition => exact hquiet (rebind_sound hreact key composition s hs) rfl
  | start => exact hquiet (hsound.start group s hs) rfl
  | stop => exact hquiet ((hsound.stop group).keeps s hs) rfl
  | seek time => exact hquiet (seek_sound hs hsinks) rfl
  | frame timestamp => exact frame_sound hreact hs (hfollowed timestamp rfl) hsinks

/-- A moment takes a sound clock below zero, or tells somebody so, exactly if it sinks it. -/
theorem afloat_iff_not_sinks (hreact : Buoyant react group) (hs : moment.stage.Sound group stamps)
    (hfollowed : ∀ timestamp ∈ moment.motion.timestamp?, Followed stamps timestamp) :
    moment.Afloat react group ↔ ¬ moment.Sinks group := by
  constructor
  · obtain ⟨motion, s⟩ := moment
    rintro ⟨hclock, htold⟩ ⟨tl, htl, hsinks⟩
    cases motion with
    | seek time =>
        have hnan : time.isNaN = true := hsinks
        obtain ⟨tl', htl', htime⟩ := seek_nan htl hnan
        have hafloat := (hclock tl' htl').time
        rw [htime] at hafloat
        rw [(Number.isNaN_of_le hafloat).2] at hnan
        cases hnan
    | frame timestamp =>
        obtain ⟨hrun, hsinks⟩ := hsinks
        obtain ⟨hfinite, hforward⟩ := hfollowed timestamp rfl
        have hbelow := mt (Timeline.moved_nonneg_iff ((hs tl htl).reached hfinite hforward)).mp
          (not_not_intro hsinks)
        rcases tick_shows htl hrun timestamp with ⟨tl', htl', htime⟩ | ⟨told, hmem, htime⟩
        · exact hbelow (htime ▸ (hclock tl' htl').time)
        · exact hbelow (htime ▸ htold told hmem)
    | _ => cases hsinks
  · intro hsinks
    obtain ⟨hsound, htold⟩ := sound_of_not_sinks hreact hs hfollowed hsinks
    exact ⟨fun tl htl => (hsound tl htl).toAfloat, htold⟩

end Moment

/-! ## Runs -/

variable {moments : List (Moment C W)} {moment : Moment C W}

/-- Timestamps of frames are finite and do not go backwards. -/
structure Onward (stamps : List Float) : Prop where
  finite : ∀ t ∈ stamps, t.isFinite = true
  forward : stamps.Pairwise fun t t' => TimeScalar.le t t' = true

omit [DecidableEq C] in
theorem timestamps_append (moments : List (Moment C W)) (moment : Moment C W) :
    timestamps (moments ++ [moment]) = timestamps moments ++ moment.motion.timestamp?.toList := by
  unfold timestamps
  rw [List.filterMap_append]
  cases h : moment.motion.timestamp? <;> simp [h]

omit [DecidableEq C] in
theorem Onward.init (h : Onward (timestamps (moments ++ [moment]))) :
    Onward (timestamps moments) := by
  rw [timestamps_append] at h
  exact ⟨fun t ht => h.finite t (List.mem_append_left _ ht), (List.pairwise_append.mp h.forward).1⟩

omit [DecidableEq C] in
theorem Onward.followed (h : Onward (timestamps (moments ++ [moment]))) :
    ∀ timestamp ∈ moment.motion.timestamp?, Followed (timestamps moments) timestamp := by
  rw [timestamps_append] at h
  intro timestamp hmem
  have hlast : timestamp ∈ moment.motion.timestamp?.toList := Option.mem_toList.mpr hmem
  refine ⟨fun t ht => ?_, fun t ht => (List.pairwise_append.mp h.forward).2.2 t ht timestamp hlast⟩
  rcases List.mem_cons.mp ht with rfl | ht
  · exact h.finite t (List.mem_append_right _ hlast)
  · exact h.finite t (List.mem_append_left _ ht)

/-- As long as no moment sinks it, a clock stays sound, and the first that sinks it shows. -/
theorem Moved.sound (hreact : Buoyant react group) (hs : s.Sound group [])
    (hmoved : Moved react group s moments s') (honward : Onward (timestamps moments)) :
    ((∀ moment ∈ moments, moment.Afloat react group) ↔ ∀ moment ∈ moments, ¬ moment.Sinks group) ∧
      ((∀ moment ∈ moments, ¬ moment.Sinks group) → s'.Sound group (timestamps moments)) := by
  induction hmoved with
  | none => exact ⟨by simp, fun _ => hs⟩
  | beside _ sound ih =>
      obtain ⟨hiff, hsound⟩ := ih honward
      exact ⟨hiff, fun hsinks => sound _ (hsound hsinks)⟩
  | @move moments s₁ _ motion ih =>
      obtain ⟨hiff, hsound⟩ := ih honward.init
      simp only [List.forall_mem_append, List.forall_mem_singleton]
      refine ⟨?_, fun ⟨hsinks, hlast⟩ => ?_⟩
      · rw [hiff]
        exact and_congr_right fun hsinks =>
          Moment.afloat_iff_not_sinks hreact (hsound hsinks) honward.followed
      · rw [timestamps_append]
        exact (Moment.sound_of_not_sinks hreact (hsound hsinks) honward.followed hlast).1

/-- Whatever is done with a clock and the players on it, neither its time nor its frame is ever
below zero, nor is any time that subscribers are told, exactly if it is never set to NaN and no
frame of a clock that runs takes it to a duration below zero or over infinity. -/
theorem afloat_iff (hreact : Buoyant react group) (hs : s.Sound group [])
    (hmoved : Moved react group s moments s') (honward : Onward (timestamps moments)) :
    ((∀ moment ∈ moments, moment.Afloat react group) ↔ ∀ moment ∈ moments, ¬ moment.Sinks group) ∧
      ((∀ moment ∈ moments, ¬ moment.Sinks group) →
        ∀ tl, s'.timeline? group = some tl → tl.Afloat) := by
  obtain ⟨hiff, hsound⟩ := hmoved.sound hreact hs honward
  exact ⟨hiff, fun hsinks tl htl => (hsound hsinks tl htl).toAfloat⟩

/-! ## Motions one after the other -/

/-- The moments in which motions are made, one after the other. -/
def momentsOf (react : React Float C W) (group : String) (s : Stage Float C W) :
    List Motion → List (Moment C W)
  | [] => []
  | motion :: rest =>
    ⟨motion, s⟩ :: momentsOf react group (Moment.after react group ⟨motion, s⟩) rest

/-- Where motions lead. -/
def reachedBy (react : React Float C W) (group : String) (s : Stage Float C W)
    (motions : List Motion) : Stage Float C W :=
  motions.foldl (fun s motion => Moment.after react group ⟨motion, s⟩) s

theorem Moved.motions (h : Moved react group s moments s') (motions : List Motion) :
    Moved react group s (moments ++ momentsOf react group s' motions)
      (reachedBy react group s' motions) := by
  induction motions generalizing moments s' with
  | nil =>
      rw [momentsOf, List.append_nil]
      exact h
  | cons motion rest ih =>
      have hrest := ih (h.move motion)
      rw [List.append_assoc, List.singleton_append] at hrest
      exact hrest

/-! ## A clock that starts over, and one that ends before it begins -/

/-- Nothing to see, for some time. -/
def spool (duration : Float) : Composition Float where
  id := "spool"
  title := none
  fps := .int 30
  width := .int 1
  height := .int 1
  scenes := []
  duration := some duration
  poster := none
  voiceover := none
  handlers := []
  scripts := []

/-- A player that hears of its ticks. -/
def projector (loop : Bool) (duration : Float) : Stage Float Unit Unit where
  source := .manual 0 {}
  players := [{
    composition := spool duration
    options := { clockMode := ClockMode.bounded.text, loop }
    group := "reel"
    listeners := [(.timelineTick, ())] }]
  outside := ()

/-- Whoever hears of a tick sets the clock. -/
def setting : React Float Unit Unit := fun _ notice =>
  match notice with
  | .event _ => seek "reel" 1
  | _ => pure ()

theorem setting_buoyant : Buoyant setting "reel" := by
  intro c notice stamps
  cases notice with
  | event event =>
      have hnumber : (1 : Float).isNaN = false := by decide +kernel
      exact fun s h => seek_sound h fun _ _ => ne_true_of_eq_false hnumber
  | _ => exact .pure ()

theorem projector_sound (loop : Bool) (duration : Float) :
    (projector loop duration).Sound "reel" [] := fun _ htl => nomatch htl

/-- What is done with the player and its clock. -/
def handled : List Motion :=
  [.mount 0, .frame 0, .frame 1.5, .seek 0.5, .frame 3, .rebind 0 (spool 1), .frame 3.25, .stop,
    .start, .frame 4]

/-- How that goes if the clock starts over. -/
def showreel : List (Moment Unit Unit) := momentsOf setting "reel" (projector true 2) handled

/-- A clock that starts over is afloat whatever is done with it. -/
theorem showreel_afloat : Buoyant setting "reel" ∧ (projector true 2).Sound "reel" [] ∧
    Onward (timestamps showreel) ∧ (∀ moment ∈ showreel, moment.Afloat setting "reel") ∧
      ((showreel.flatMap fun moment => (moment.notices setting "reel").map Prod.snd) ==
        [0, 0.5, 0, 0.25, 0]) = true := by
  have honward : Onward (timestamps showreel) := ⟨by decide +kernel, by decide +kernel⟩
  have hsinks : ∀ moment ∈ showreel, ¬ moment.Sinks "reel" := by decide +kernel
  have hmoved : Moved setting "reel" (projector true 2) showreel _ := Moved.motions .none handled
  exact ⟨setting_buoyant, projector_sound true 2, honward,
    (afloat_iff setting_buoyant (projector_sound true 2) hmoved honward).1.mpr hsinks,
    by decide +kernel⟩

/-- How it goes if the clock ends below zero. -/
def countdown : List (Moment Unit Unit) :=
  momentsOf setting "reel" (projector false (-5)) [.mount 0, .frame 0]

/-- A clock that ends below zero goes there with its first frame. -/
theorem countdown_sunk : Buoyant setting "reel" ∧ (projector false (-5)).Sound "reel" [] ∧
    Moved setting "reel" (projector false (-5)) countdown
      (reachedBy setting "reel" (projector false (-5)) [.mount 0, .frame 0]) ∧
    Onward (timestamps countdown) ∧ ¬ ∀ moment ∈ countdown, moment.Afloat setting "reel" := by
  refine ⟨setting_buoyant, projector_sound false (-5),
    Moved.motions .none [.mount 0, .frame 0], ⟨by decide +kernel, by decide +kernel⟩, ?_⟩
  have htold : ∃ moment ∈ countdown, ∃ told ∈ moment.notices setting "reel",
      TimeScalar.le 0 told.2 = false := by
    decide +kernel
  intro hafloat
  obtain ⟨moment, hmoment, told, hmem, hbelow⟩ := htold
  rw [(hafloat moment hmoment).told told hmem] at hbelow
  cases hbelow

end Cuesheet.Stage
