import Cuesheet.Proofs.Stage.Sinking

/-!
# Clocks whose frame is that of their time

A clock takes a time before its frame is counted, and not every time can be counted in frames: the
product with the rate has to be finite (`Number.Counts`). Whatever is done with a clock and with the
players on it, its frame is that of its time (`Timeline.Tallies`), also whenever a subscriber is
told, and a time that is refused leaves it as it was, exactly if the rate is a double and no move
overruns what can be counted (`tallies_iff`). Subscribers may fail, and do anything that leaves the
frame that of the time (`Firm`).
-/

namespace Cuesheet

/-- A time can be counted in frames: the rate is a double, and the product of both is finite. -/
def Number.Counts (fps : Number) (time : Float) : Prop :=
  ∃ rate, fps.toFloat? = .ok rate ∧ (time * rate).isFinite = true

instance (fps : Number) (time : Float) : Decidable (fps.Counts time) :=
  match h : fps.toFloat? with
  | .ok rate => decidable_of_iff ((time * rate).isFinite = true)
      ⟨fun hfinite => ⟨rate, h, hfinite⟩, fun ⟨_, hrate, hfinite⟩ =>
        Except.ok.inj (h.symm.trans hrate) ▸ hfinite⟩
  | .error _ => .isFalse fun ⟨_, hrate, _⟩ => nomatch h.symm.trans hrate

/-- The frame of a clock is that of its time. -/
def Timeline.Tallies {S : Type} (tl : Timeline Float S) : Prop := tl.frameNumber = .ok tl.frame

/-- A clock has a frame number where its time counts, and nowhere else. -/
theorem Timeline.frameNumber_cases {S : Type} (tl : Timeline Float S) :
    (∃ frame, tl.frameNumber = .ok frame ∧ tl.fps.Counts tl.time) ∨
      ∃ fault, tl.frameNumber = .error fault ∧ ¬ tl.fps.Counts tl.time := by
  have hcounts := Number.frameAt_ok_iff tl.time tl.fps
  cases hnumber : tl.frameNumber with
  | ok frame => exact .inl ⟨frame, rfl, hcounts.mp ⟨frame, hnumber⟩⟩
  | error fault =>
      refine .inr ⟨fault, rfl, fun h => ?_⟩
      obtain ⟨frame, hframe⟩ := hcounts.mpr h
      cases hnumber.symm.trans hframe

theorem Timeline.Tallies.counts {S : Type} {tl : Timeline Float S} (h : tl.Tallies) :
    tl.fps.Counts tl.time := (Number.frameAt_ok_iff tl.time tl.fps).mp ⟨tl.frame, h⟩

/-- A clock at its start tallies if its rate is a double. -/
theorem Timeline.tallies_start {S : Type} {tl : Timeline Float S} (htime : tl.time = 0)
    (hframe : tl.frame = 0) (hpos : tl.fps.isPositive = true)
    (hfinite : ∀ x, tl.fps = .real x → x.isFinite = true) :
    tl.Tallies ↔ ∃ rate, tl.fps.toFloat? = .ok rate := by
  constructor
  · intro h
    obtain ⟨rate, hrate, -⟩ := h.counts
    exact ⟨rate, hrate⟩
  · rintro ⟨rate, hrate⟩
    rw [Tallies, frameNumber, htime, hframe]
    exact Number.frameAt_zero hpos hfinite hrate

namespace Stage

variable {C W : Type} {react : React Float C W} {group : String} {s s' : Stage Float C W}

/-! ## Stages on which a clock tallies -/

/-- The clock of a group is there, and its frame is that of its time. -/
def Tallies (group : String) (s : Stage Float C W) : Prop :=
  ∃ tl, s.timeline? group = some tl ∧ tl.Tallies

/-- Callbacks leave the frame of a clock that of its time, whatever else they do. They may fail. -/
def Firm (react : React Float C W) (group : String) : Prop :=
  ∀ c notice, Keeps (Tallies group) (react c notice)

theorem Tallies.modifyTimeline (h : s.Tallies group) {other : String}
    {f : Timeline Float (Subscriber C) → Timeline Float (Subscriber C)}
    (hid : ∀ tl, tl.id = other → (f tl).id = other)
    (hf : ∀ tl, s.timeline? other = some tl → tl.Tallies → (f tl).Tallies) :
    (s.modifyTimeline other f).Tallies group := by
  obtain ⟨tl, htl, htallies⟩ := h
  unfold Tallies
  rw [timeline?_modifyTimeline s hid]
  split
  · rename_i hother
    subst hother
    rw [htl]
    exact ⟨f tl, rfl, hf tl htl htallies⟩
  · exact ⟨tl, htl, htallies⟩

theorem hospitable_tallies (group : String) :
    Hospitable (Tallies group : Stage Float C W → Prop) where
  source _ _ h := h
  rests s other f hf h := by
    refine h.modifyTimeline (fun tl hid => (hf tl).id.trans hid) fun tl _ htallies => ?_
    have hfps : (f tl).fps = tl.fps := congrArg Terms.fps (hf tl).terms
    rw [Timeline.Tallies, Timeline.frameNumber, (hf tl).time, (hf tl).frame, hfps]
    exact htallies
  seats _ _ _ _ h := h
  tickets s other f hf h := by
    refine h.modifyTimeline (fun tl hid => ?_) fun tl _ htallies => ?_
    · rw [hf tl]
      exact hid
    · rw [hf tl]
      exact htallies
  made s other settings made _ _ h := by
    obtain ⟨tl, htl, htallies⟩ := h
    refine ⟨tl, ?_, htallies⟩
    rw [timeline?_append, htl]
    rfl

theorem Firm.sheltered (h : Firm react group) : Sheltered react (Tallies group) :=
  ⟨h, fun _ _ _ _ hs => hs⟩

theorem rebind_tallies (hreact : Firm react group) (key : Nat) (composition : Composition Float) :
    Keeps (Tallies group) (rebind react key composition) :=
  .rebind hreact (fun _ _ _ h => h)
    (fun _ _ _ h => h.modifyTimeline (fun _ hid => hid) fun _ _ htallies => htallies) key
    composition

/-! ## Times that overrun -/

/-- A clock takes a time that cannot be counted in frames. -/
def Motion.Overruns (tl : Timeline Float (Subscriber C)) : Motion → Prop
  | seek time => TimeScalar.lt time 0 = false ∧ ¬ tl.fps.Counts time
  | frame timestamp => tl.running = true ∧ ¬ tl.fps.Counts (tl.moved timestamp).time
  | _ => False

instance (tl : Timeline Float (Subscriber C)) : (motion : Motion) → Decidable (motion.Overruns tl)
  | .seek _ | .frame _ => inferInstanceAs (Decidable (_ ∧ _))
  | .mount _ | .unmount _ | .rebind _ _ | .start | .stop => inferInstanceAs (Decidable False)

namespace Moment

def Overruns (group : String) (moment : Moment C W) : Prop :=
  ∃ tl ∈ moment.stage.timeline? group, moment.motion.Overruns tl

instance (moment : Moment C W) : Decidable (moment.Overruns group) :=
  inferInstanceAs (Decidable (∃ tl ∈ moment.stage.timeline? group, _))

variable [DecidableEq C]

/-- The frame of a clock is that of its time after a moment, and whenever somebody is told in it; a
time that is refused changes nothing. -/
structure Tallied (react : React Float C W) (group : String) (moment : Moment C W) : Prop where
  clock : (moment.after react group).Tallies group
  told : ∀ told ∈ moment.notices react group, told.1.stage.Tallies group
  refused : ∀ time fault s', moment.motion = .seek time →
    seek group time moment.stage = .error fault s' → s' = moment.stage

end Moment

variable {moment : Moment C W} {tl : Timeline Float (Subscriber C)}

theorem Moment.overruns_iff (htl : moment.stage.timeline? group = some tl) :
    moment.Overruns group ↔ moment.motion.Overruns tl := by
  constructor
  · rintro ⟨tl', htl', h⟩
    cases htl.symm.trans htl'
    exact h
  · exact fun h => ⟨tl, htl, h⟩

/-! ## Moments -/

variable [DecidableEq C]

/-- A clock that is set to a time tallies, or refuses the time and stays, unless it takes the time
and cannot count it. -/
theorem seek_tallied_iff (hs : s.Tallies group) (time : Float) :
    Moment.Tallied react group ⟨.seek time, s⟩ ↔ ¬ Moment.Overruns group ⟨.seek time, s⟩ := by
  obtain ⟨tl, htl, htallies⟩ := hs
  have hseek := seek_eq htl time
  have htold : ∀ told ∈ Moment.notices react group ⟨.seek time, s⟩, told.1.stage.Tallies group :=
    fun _ h => absurd h List.not_mem_nil
  have hover : Moment.Overruns group ⟨.seek time, s⟩ ↔
      TimeScalar.lt time 0 = false ∧ ¬ tl.fps.Counts time := Moment.overruns_iff htl
  rw [hover]
  rw [Number.zero_eq] at hseek
  cases hbelow : TimeScalar.lt time 0 with
  | true =>
      rw [hbelow, if_pos rfl] at hseek
      refine iff_of_true ⟨?_, htold, ?_⟩ fun h => nomatch h.1
      · rw [Moment.after, after, Motion.act, hseek]
        exact ⟨tl, htl, htallies⟩
      · rintro _ fault s' ⟨⟩ hrefused
        cases hseek.symm.trans hrefused
        rfl
  | false =>
      rw [hbelow, if_neg Bool.false_ne_true] at hseek
      rcases Timeline.frameNumber_cases { tl with time } with
        ⟨frame, hnumber, hcounts⟩ | ⟨fault, hnumber, hover⟩
      · rw [hnumber] at hseek
        refine iff_of_true ⟨?_, htold, ?_⟩ fun h => h.2 hcounts
        · rw [Moment.after, after, Motion.act, hseek]
          exact ⟨_, timeline?_changed (f := fun tl => { tl with time, frame }) htl fun _ hid => hid,
            hnumber⟩
        · rintro _ fault s' ⟨⟩ hrefused
          cases hseek.symm.trans hrefused
      · rw [hnumber] at hseek
        refine iff_of_false (fun h => ?_) (not_not_intro ⟨rfl, hover⟩)
        obtain ⟨tl', htl', htallies'⟩ := h.clock
        have hset := timeline?_changed (f := fun tl => { tl with time }) htl fun _ hid => hid
        rw [Moment.after, after, Motion.act, hseek] at htl'
        cases hset.symm.trans htl'
        exact hover htallies'.counts

/-- So does a clock that a frame moves. -/
theorem frame_tallied_iff (hreact : Firm react group) (hs : s.Tallies group)
    (timestamp : Float) : Moment.Tallied react group ⟨.frame timestamp, s⟩ ↔
      ¬ Moment.Overruns group ⟨.frame timestamp, s⟩ := by
  obtain ⟨tl, htl, htallies⟩ := hs
  have hid : tl.id = group := timeline?_id htl
  have hover : Moment.Overruns group ⟨.frame timestamp, s⟩ ↔
      tl.running = true ∧ ¬ tl.fps.Counts (tl.moved timestamp).time := Moment.overruns_iff htl
  rw [hover]
  cases hrun : tl.running with
  | false =>
      refine iff_of_true ⟨?_, ?_, fun _ _ _ h => nomatch h⟩ fun h => nomatch h.1
      · rw [Moment.after, after, Motion.act, tick_stopped htl hrun]
        have hhalted := timeline?_changed (f := fun tl => { tl with handle := none }) htl
          fun _ hid => hid
        exact ⟨_, hhalted, htallies⟩
      · have hnobody : Moment.notices react group ⟨.frame timestamp, s⟩ = [] :=
          notices_rests htl hrun
        rw [hnobody]
        exact fun _ h => absurd h List.not_mem_nil
  | true =>
      have htick : tick (hear react) group timestamp s = _ := tick_running htl hrun timestamp
      rcases (tl.moved timestamp).frameNumber_cases with
        ⟨frame, hnumber, hcounts⟩ | ⟨fault, hnumber, hover⟩
      · rw [hnumber] at htick
        have hmoving : (s.moving group tl timestamp frame).Tallies group :=
          ⟨_, timeline?_changed (f := fun _ => { tl.moved timestamp with frame }) htl
            fun _ _ => hid, hnumber⟩
        refine iff_of_true ⟨?_, fun told htold => ?_, fun _ _ _ h => nomatch h⟩ fun h => h.2 hcounts
        · have hheard :=
            hreact.sheltered.hearEach (tl.moved timestamp).time tl.subscribers _ hmoving
          rw [Moment.after, after, Motion.act, htick, ← after, after_ensuring]
          exact (hospitable_tallies group).toCalm.renew group _ hheard
        · have hnotices : Moment.notices react group ⟨.frame timestamp, s⟩ = _ :=
            notices_moving react htl hrun hnumber
          rw [hnotices] at htold
          obtain ⟨t, ht, rfl⟩ := List.mem_map.mp htold
          exact hearers_kept hreact.sheltered.hear group _ _ _ hmoving t ht
      · rw [hnumber] at htick
        refine iff_of_false (fun h => ?_) (not_not_intro ⟨rfl, hover⟩)
        obtain ⟨tl', htl', htallies'⟩ := h.clock
        have hset := timeline?_changed (f := fun _ => tl.moved timestamp) htl fun _ _ => hid
        rw [Moment.after, after, Motion.act, htick] at htl'
        cases hset.symm.trans htl'
        exact hover htallies'.counts

theorem Moment.tallied_iff (hreact : Firm react group) (hs : moment.stage.Tallies group) :
    moment.Tallied react group ↔ ¬ moment.Overruns group := by
  obtain ⟨motion, s⟩ := moment
  obtain ⟨tl, htl, -⟩ := id hs
  have hhospitable : Hospitable (Tallies group : Stage Float C W → Prop) := hospitable_tallies group
  -- whatever neither sets nor moves the clock tells nobody
  have hquiet (hkept : (Moment.after react group ⟨motion, s⟩).Tallies group)
      (hnobody : Moment.notices react group ⟨motion, s⟩ = [])
      (hover : ¬ motion.Overruns tl) (hseek : ∀ time, motion ≠ .seek time) :
      Moment.Tallied react group ⟨motion, s⟩ ↔ ¬ Moment.Overruns group ⟨motion, s⟩ := by
    refine iff_of_true ⟨hkept, ?_, fun time _ _ h => absurd h (hseek time)⟩
      (mt (Moment.overruns_iff htl).mp hover)
    rw [hnobody]
    exact fun _ h => absurd h List.not_mem_nil
  cases motion with
  | mount key => exact hquiet (hhospitable.mount hreact key s hs) rfl id nofun
  | unmount key => exact hquiet (hhospitable.unmount key s hs) rfl id nofun
  | rebind key composition => exact hquiet (rebind_tallies hreact key composition s hs) rfl id nofun
  | start => exact hquiet (hhospitable.start group s hs) rfl id nofun
  | stop => exact hquiet ((hhospitable.stop group).keeps s hs) rfl id nofun
  | seek time => exact seek_tallied_iff hs time
  | frame timestamp => exact frame_tallied_iff hreact hs timestamp

/-! ## Runs -/

/-- As long as nothing overruns, a clock tallies, and the first that overruns shows. -/
theorem Tallies.run (hreact : Firm react group) (hs : s.Tallies group) (motions : List Motion) :
    (∀ moment ∈ momentsOf react group s motions, moment.Tallied react group) ↔
      ∀ moment ∈ momentsOf react group s motions, ¬ moment.Overruns group := by
  induction motions generalizing s with
  | nil => simp [momentsOf]
  | cons motion rest ih =>
      have hfirst : Moment.Tallied react group ⟨motion, s⟩ ↔ _ := Moment.tallied_iff hreact hs
      simp only [momentsOf, List.forall_mem_cons]
      rw [← hfirst]
      exact and_congr_right fun h => ih h.clock

/-- Whatever is done with a clock and with players on it, one move after the other, from its start
on, its frame is that of its time, before and after every move and whenever a subscriber is told,
and a time that is refused changes nothing, exactly if its rate is a double and it never takes a
time that cannot be counted in frames. -/
theorem tallies_iff (hreact : Firm react group) (htl : s.timeline? group = some tl)
    (htime : tl.time = 0) (hframe : tl.frame = 0) (hpos : tl.fps.isPositive = true)
    (hfinite : ∀ x, tl.fps = .real x → x.isFinite = true) (motions : List Motion) :
    (s.Tallies group ∧
        ∀ moment ∈ momentsOf react group s motions, moment.Tallied react group) ↔
      (∃ rate, tl.fps.toFloat? = .ok rate) ∧
        ∀ moment ∈ momentsOf react group s motions, ¬ moment.Overruns group := by
  have hstart : s.Tallies group ↔ ∃ rate, tl.fps.toFloat? = .ok rate := by
    rw [← Timeline.tallies_start htime hframe hpos hfinite]
    constructor
    · rintro ⟨tl', htl', htallies⟩
      cases htl.symm.trans htl'
      exact htallies
    · exact fun h => ⟨tl, htl, h⟩
  rw [← hstart]
  exact and_congr_right fun hs => hs.run hreact motions

/-! ## A metronome -/

/-- A clock at thirty frames a second, and somebody who listens to it. -/
def metronome : Stage Float Unit Unit where
  source := .manual 0 {}
  timelines := [{
    id := "beat"
    fps := .int 30
    mode := .live
    loop := false
    duration := none
    subscribers := [.call ()]
    time := 0 }]
  outside := ()

/-- Whoever listens fails. -/
def jamming : React Float Unit Unit := fun _ _ => throw (.callback "boom")

theorem jamming_firm : Firm jamming "beat" := fun _ _ => .throw _

/-- A clock tallies although every tick fails and one time is refused. -/
theorem metronome_tallies : let motions : List Motion :=
      [.start, .frame 0, .frame 1.5, .seek (-1), .seek 2.5, .frame 2, .stop, .frame 3]
    (metronome.Tallies "beat" ∧ ∀ moment ∈ momentsOf jamming "beat" metronome motions,
        moment.Tallied jamming "beat") ∧
      ((reachedBy jamming "beat" metronome motions).timeline? "beat").map
        (fun tl => (tl.time, tl.frame)) = some (3, 90) := by
  have hwhole : ∀ x, Number.int 30 = .real x → x.isFinite = true := nofun
  constructor
  · exact (tallies_iff jamming_firm rfl rfl rfl rfl hwhole _).mpr ⟨⟨_, rfl⟩, by decide +kernel⟩
  · decide +kernel

/-- A time that is too late to be counted is refused, but the clock has taken it. -/
theorem metronome_overruns : Firm jamming "beat" ∧ metronome.Tallies "beat" ∧
    isOk (seek "beat" 1e308 metronome) = false ∧
      ((after (seek "beat" 1e308) metronome).timeline? "beat").map
        (fun tl => (tl.time, tl.frame)) = some (1e308, 0) ∧
      ¬ ∀ moment ∈ momentsOf jamming "beat" metronome [.seek 1e308],
        moment.Tallied jamming "beat" := by
  have hwhole : ∀ x, Number.int 30 = .real x → x.isFinite = true := nofun
  have hstart : metronome.Tallies "beat" :=
    ⟨_, rfl, (Timeline.tallies_start rfl rfl rfl hwhole).mpr ⟨_, rfl⟩⟩
  refine ⟨jamming_firm, hstart, by decide +kernel, by decide +kernel, ?_⟩
  rw [hstart.run jamming_firm]
  decide +kernel

end Stage

end Cuesheet
