import Cuesheet.Proofs.Clock.Elapsing
import Cuesheet.Proofs.Stage.Hearing
import Cuesheet.Proofs.Stage.Telling

/-!
# Refresh rates

How often a clock ticks makes no difference to where it is: after frames between two timestamps it
is where the time between them takes it (`played_elapsed`), however many frames there were and
whatever happened between them and in them, as long as nobody stops, seeks or sets the clock. A
clock that comes to its duration stops there, and exactly one of the frames tells it.
-/

namespace Cuesheet

/-- A clock without those who are told the time, and without its frame number. -/
def Timeline.pace {T S : Type} (tl : Timeline T S) : Timeline T Unit where
  id := tl.id
  fps := tl.fps
  mode := tl.mode
  loop := tl.loop
  duration := tl.duration
  handle := tl.handle
  lastTimestamp := tl.lastTimestamp
  running := tl.running
  time := tl.time

namespace Stage

variable {T C W : Type} {react : React T C W} {group : String} {s s' : Stage T C W}

def pace? (s : Stage T C W) (group : String) : Option (Timeline T Unit) :=
  (s.timeline? group).map Timeline.pace

/-- What happens leaves a clock alone: it is not stopped, sought, set or moved. -/
def SamePace (group : String) (s s' : Stage T C W) : Prop := s'.pace? group = s.pace? group

/-- Callbacks leave a clock alone. They may fail. -/
def Spares (react : React T C W) (group : String) : Prop :=
  ∀ c notice s, SamePace group s (after (react c notice) s)

theorem Spares.sheltered (h : Spares react group) (p : Timeline T Unit) :
    Sheltered react (fun s => s.pace? group = some p) :=
  ⟨fun c notice s hs => (h c notice s).trans hs, fun _ _ _ _ hs => hs⟩

/-! ## Frames that are delivered to a clock -/

/-- A frame: its timestamp, and the stage on which it is delivered. -/
structure Delivered (T C W : Type) where
  timestamp : T
  stage : Stage T C W

variable [TimeScalar T]

/-- A clock is started, and frames are delivered to it. Between two of them anything may happen
that leaves the clock alone. -/
inductive Played (react : React T C W) (group : String) (s : Stage T C W) :
    List (Delivered T C W) → Stage T C W → Prop
  | started : Played react group s [] (after (start group) s)
  | beside {frames : List (Delivered T C W)} {s₁ s₂ : Stage T C W}
      (played : Played react group s frames s₁) (same : SamePace group s₁ s₂) :
      Played react group s frames s₂
  | frame {frames : List (Delivered T C W)} {s₁ : Stage T C W}
      (played : Played react group s frames s₁) (timestamp : T) :
      Played react group s (frames ++ [⟨timestamp, s₁⟩])
        (after (tick (hear react) group timestamp) s₁)

/-- Whom a frame tells the time of its clock, and what time that is. -/
def Delivered.notices (react : React T C W) (group : String) (frame : Delivered T C W) :
    List (Telling T C W × T) :=
  match frame.stage.timeline? group with
  | none => []
  | some tl =>
    (tellings react frame.timestamp (.tick group) frame.stage).map fun telling =>
      (telling, (tl.moved frame.timestamp).time)

/-- A frame tells those who subscribe by then one time, one after the other up to the first who
fails. -/
structure Delivered.Announces (react : React T C W) (group : String) (time : T)
    (frame : Delivered T C W) (subscribers : List (Subscriber C)) : Prop where
  same : ∀ told ∈ frame.notices react group, told.2 = time
  order : (frame.notices react group).map (·.1.subscriber) <+: subscribers
  all : (∀ told ∈ frame.notices react group,
      isOk (hear react told.1.subscriber time told.1.stage) = true) →
    (frame.notices react group).map (·.1.subscriber) = subscribers

/-- Exactly one of some frames tells a time, provided that the frame rate is exact, too: without a
frame number nobody is told. -/
def ToldOnce (react : React T C W) (group : String) (time : T) (frames : List (Delivered T C W)) :
    Prop :=
  ∃ before frame later tl, frames = before ++ frame :: later ∧
    frame.stage.timeline? group = some tl ∧
    ((∃ rate : T, TimeScalar.ofNumber tl.fps = .ok rate) →
      frame.Announces react group time tl.subscribers) ∧
    ∀ other ∈ before ++ later, ∀ told ∈ other.notices react group, told.2 ≠ time

/-! ## What calls do to a clock -/

omit [TimeScalar T] in
theorem pace?_of_timeline? {tl : Timeline T (Subscriber C)} (h : s.timeline? group = some tl) :
    s.pace? group = some tl.pace := by
  rw [pace?, h]
  rfl

omit [TimeScalar T] in
theorem timeline?_of_pace? {p : Timeline T Unit} (h : s.pace? group = some p) :
    ∃ tl, s.timeline? group = some tl ∧ tl.pace = p := Option.map_eq_some_iff.mp h

omit [TimeScalar T] in
theorem timeline?_changed {tl : Timeline T (Subscriber C)}
    {f : Timeline T (Subscriber C) → Timeline T (Subscriber C)}
    (htl : s.timeline? group = some tl) (hf : ∀ tl, tl.id = group → (f tl).id = group) :
    (s.modifyTimeline group f).timeline? group = some (f tl) := by
  rw [timeline?_modifyTimeline s hf, if_pos rfl, htl]
  rfl

omit [TimeScalar T] in
theorem pace?_modifyTimeline {tl : Timeline T (Subscriber C)}
    {f : Timeline T (Subscriber C) → Timeline T (Subscriber C)}
    (htl : s.timeline? group = some tl) (hf : ∀ tl, tl.id = group → (f tl).id = group) :
    (s.modifyTimeline group f).pace? group = some (f tl).pace :=
  pace?_of_timeline? (timeline?_changed htl hf)

/-- A request is taken, or refused, and nothing but the source changes. -/
theorem request_cases (task : FrameTask C) (s : Stage T C W) :
    (∃ handle source, request task s = .ok handle { s with source }) ∨
      ∃ fault, request task s = .error fault s := by
  rw [request, get_bind]
  cases s.source.request? task with
  | none => exact .inr ⟨_, rfl⟩
  | some taken => exact .inl ⟨_, _, rfl⟩

/-- A clock asks for a frame, and gets one or not. -/
theorem asked_pace {tl : Timeline T (Subscriber C)} (htl : s.timeline? group = some tl) :
    ∃ handle, (after (do
      let handle ← request (.tick group)
      modify fun s => s.modifyTimeline group fun tl => { tl with handle := some handle } :
        Action T C W Unit) s).pace? group = some { tl.pace with handle } := by
  rcases request_cases (.tick group) s with ⟨handle, source, hrequest⟩ | ⟨fault, hrequest⟩
  · refine ⟨some handle, ?_⟩
    have htl' : timeline? { s with source } group = some tl := htl
    rw [after, bind_ok hrequest]
    exact pace?_modifyTimeline (f := fun tl => { tl with handle := some handle }) htl' fun _ h => h
  · refine ⟨tl.handle, ?_⟩
    rw [after, bind_error hrequest]
    exact pace?_of_timeline? htl

theorem start_pace {tl : Timeline T (Subscriber C)} (htl : s.timeline? group = some tl)
    (hstopped : tl.running = false) : ∃ handle, (after (start group) s).pace? group =
      some { tl.pace with running := true, lastTimestamp := none, handle } := by
  have hfirst := timeline?_changed
    (f := fun tl => { tl with running := true, lastTimestamp := none }) htl fun _ h => h
  obtain ⟨handle, hasked⟩ := asked_pace hfirst
  refine ⟨handle, ?_⟩
  have hstart : start group s = _ := lookup_some htl _ _
  rw [if_neg (ne_true_of_eq_false hstopped)] at hstart
  rw [after, hstart]
  exact hasked

/-- Asking for the next frame changes the handle of a clock at most, and not if the clock is
stopped. -/
theorem renew_pace {p : Timeline T Unit} (h : s.pace? group = some p) :
    ∃ handle, (after (renew group) s).pace? group = some { p with handle } ∧
      (p.running = false → handle = p.handle) := by
  obtain ⟨tl, htl, rfl⟩ := timeline?_of_pace? h
  have hrenew : renew group s = _ := lookup_some htl _ _
  split at hrenew
  · rename_i hasks
    obtain ⟨handle, hasked⟩ := asked_pace htl
    refine ⟨handle, ?_, fun hstopped => ?_⟩
    · rw [after, hrenew]
      exact hasked
    · have hstopped : tl.running = false := hstopped
      rw [hstopped] at hasks
      cases hasks
  · refine ⟨tl.handle, ?_, fun _ => rfl⟩
    rw [after, hrenew]
    exact h

/-- A frame moves a clock that runs, whether or not somebody fails. -/
theorem tick_pace (hreact : Spares react group) {p : Timeline T Unit}
    (h : s.pace? group = some p) (hrun : p.running = true) (timestamp : T) :
    ∃ handle, (after (tick (hear react) group timestamp) s).pace? group =
        some { p.moved timestamp with handle } ∧
      ((p.moved timestamp).running = false → handle = none) := by
  obtain ⟨tl, htl, rfl⟩ := timeline?_of_pace? h
  have hid : tl.id = group := timeline?_id htl
  cases hnumber : (tl.moved timestamp).frameNumber with
  | error fault =>
      refine ⟨none, ?_, fun _ => rfl⟩
      rw [after, tick_running htl hrun, hnumber]
      exact pace?_modifyTimeline (f := fun _ => tl.moved timestamp) htl fun _ _ => hid
  | ok frame =>
      have hmoving : (s.moving group tl timestamp frame).pace? group =
          some (tl.moved timestamp).pace :=
        pace?_modifyTimeline (f := fun _ => { tl.moved timestamp with frame }) htl fun _ _ => hid
      have hheard :=
        (hreact.sheltered _).hearEach (tl.moved timestamp).time tl.subscribers _ hmoving
      obtain ⟨handle, hrenew, hkept⟩ := renew_pace hheard
      refine ⟨handle, ?_, hkept⟩
      rw [after, tick_running htl hrun, hnumber, ← after, after_ensuring]
      exact hrenew

theorem tick_rests {p : Timeline T Unit} (h : s.pace? group = some p) (hstopped : p.running = false)
    (timestamp : T) : (after (tick (hear react) group timestamp) s).pace? group =
      some { p with handle := none } := by
  obtain ⟨tl, htl, rfl⟩ := timeline?_of_pace? h
  rw [after, tick_stopped htl hstopped]
  exact pace?_modifyTimeline (f := fun tl => { tl with handle := none }) htl fun _ h => h

/-! ## What a frame tells -/

theorem notices_rests {frame : Delivered T C W} {tl : Timeline T (Subscriber C)}
    (htl : frame.stage.timeline? group = some tl) (hstopped : tl.running = false) :
    frame.notices react group = [] := by
  simp [Delivered.notices, tellings, htl, hstopped]

theorem notices_same {frame : Delivered T C W} {tl : Timeline T (Subscriber C)}
    (htl : frame.stage.timeline? group = some tl) :
    ∀ told ∈ frame.notices react group, told.2 = (tl.moved frame.timestamp).time := by
  intro told htold
  simp only [Delivered.notices, htl, List.mem_map] at htold
  obtain ⟨telling, -, rfl⟩ := htold
  rfl

/-- If nobody who is told the time fails, everyone is told. -/
theorem hearers_all (time : T) :
    ∀ (subscribers : List (Subscriber C)) (s : Stage T C W),
      (∀ t ∈ hearers react group time subscribers s,
          isOk (hear react t.subscriber time t.stage) = true) →
        (hearers react group time subscribers s).map Telling.subscriber = subscribers
  | [], s, _ => rfl
  | subscriber :: rest, s, hok => by
      unfold hearers at hok ⊢
      have hfirst := hok _ List.mem_cons_self
      cases hhear : hear react subscriber time s with
      | error fault s' =>
          rw [show hear react subscriber time s = _ from hhear] at hfirst
          cases hfirst
      | ok _ s' =>
          rw [hhear] at hok
          have hrest := hearers_all time rest s' fun t ht => hok t (List.mem_cons_of_mem _ ht)
          exact congrArg (subscriber :: ·) hrest

/-- What whoever is told the time keeps holds whenever somebody is told. -/
theorem hearers_kept {J : Stage T C W → Prop}
    (hkeep : ∀ subscriber time, Keeps J (hear react subscriber time)) (group : String) (time : T) :
    ∀ (subscribers : List (Subscriber C)) (s : Stage T C W), J s →
      ∀ t ∈ hearers react group time subscribers s, J t.stage
  | [], _, _, _, ht => nomatch ht
  | subscriber :: rest, s, hs, t, ht => by
      have hfirst := hkeep subscriber time s hs
      unfold hearers at ht
      rcases List.mem_cons.mp ht with rfl | ht
      · exact hs
      · unfold after at hfirst
        cases hhear : hear react subscriber time s with
        | ok _ s' =>
            rw [hhear] at ht hfirst
            exact hearers_kept hkeep group time rest s' hfirst t ht
        | error fault s' =>
            rw [hhear] at ht
            cases ht

theorem notices_moving (react : React T C W) {tl : Timeline T (Subscriber C)} {now : T}
    {number : Int} (htl : s.timeline? group = some tl) (hrun : tl.running = true)
    (hnumber : (tl.moved now).frameNumber = .ok number) :
    Delivered.notices react group ⟨now, s⟩ =
      (hearers react group (tl.moved now).time tl.subscribers (s.moving group tl now number)).map
        fun t => (t, (tl.moved now).time) := by
  simp only [Delivered.notices, tellings, htl, hrun, hnumber]

theorem announces_moved {frame : Delivered T C W} {tl : Timeline T (Subscriber C)}
    (htl : frame.stage.timeline? group = some tl) (hrun : tl.running = true) {number : Int}
    (hnumber : (tl.moved frame.timestamp).frameNumber = .ok number) :
    frame.Announces react group (tl.moved frame.timestamp).time tl.subscribers := by
  have hnotices := notices_moving react htl hrun hnumber
  have hwhom : (frame.notices react group).map (·.1.subscriber) =
      (hearers react group (tl.moved frame.timestamp).time tl.subscribers
        (frame.stage.moving group tl frame.timestamp number)).map Telling.subscriber := by
    rw [hnotices, List.map_map]
    rfl
  refine ⟨notices_same htl, ?_, fun hok => ?_⟩
  · rw [hwhom]
    exact (hearers_spec _ _ _).1
  · rw [hwhom]
    refine hearers_all _ _ _ fun t ht => hok (t, (tl.moved frame.timestamp).time) ?_
    rw [hnotices]
    exact List.mem_map.mpr ⟨t, ht, rfl⟩

/-- A frame that tells nobody a time is one more that does not. -/
theorem ToldOnce.snoc {time : T} {frames : List (Delivered T C W)}
    (h : ToldOnce react group time frames) {frame : Delivered T C W}
    (hnone : ∀ told ∈ frame.notices react group, told.2 ≠ time) :
    ToldOnce react group time (frames ++ [frame]) := by
  obtain ⟨before, final, later, tl, rfl, htl, hannounces, hothers⟩ := h
  refine ⟨before, final, later ++ [frame], tl, by simp, htl, hannounces, fun other hother => ?_⟩
  rw [← List.append_assoc] at hother
  rcases List.mem_append.mp hother with hother | hother
  · exact hothers other hother
  · rw [List.mem_singleton.mp hother]
    exact hnone

/-! ## Frames between two timestamps -/

/-- Frames whose timestamps do not go backwards, with the first one and the last one. -/
structure Spans [LE T] (first last : T) (frames : List (Delivered T C W)) : Prop where
  forward : (frames.map Delivered.timestamp).Pairwise (· ≤ ·)
  first : frames.head?.map Delivered.timestamp = some first
  last : frames.getLast?.map Delivered.timestamp = some last

omit [TimeScalar T] in
/-- The last of some frames comes after the others, if there are any. -/
theorem Spans.split [LE T] {first last : T} {frames : List (Delivered T C W)}
    {frame : Delivered T C W} (h : Spans first last (frames ++ [frame])) :
    frame.timestamp = last ∧ (frames = [] ∧ first = last ∨
      ∃ before, Spans first before frames ∧ before ≤ last) := by
  have hlast : frame.timestamp = last := by simpa using h.last
  refine ⟨hlast, ?_⟩
  rcases List.eq_nil_or_concat frames with rfl | ⟨init, final, rfl⟩
  · have hfirst : frame.timestamp = first := by simpa using h.first
    exact .inl ⟨rfl, hfirst.symm.trans hlast⟩
  · have hforward := h.forward
    rw [List.map_append, List.pairwise_append] at hforward
    obtain ⟨hbefore, -, hcross⟩ := hforward
    refine .inr ⟨final.timestamp, ⟨hbefore, ?_, by simp⟩, ?_⟩
    · simpa using h.first
    · rw [← hlast]
      exact hcross _ (by simp) _ (by simp)

omit [TimeScalar T] in
theorem Spans.le [Preorder T] {first last : T} {frames : List (Delivered T C W)}
    (h : Spans first last frames) : first ≤ last := by
  cases frames with
  | nil => simpa using h.first
  | cons frame rest =>
      have hfirst : frame.timestamp = first := by simpa using h.first
      rcases List.eq_nil_or_concat rest with rfl | ⟨init, final, rfl⟩
      · have hlast : frame.timestamp = last := by simpa using h.last
        exact le_of_eq (hfirst.symm.trans hlast)
      · have hlast : final.timestamp = last := by
          have hlast := h.last
          rw [List.concat_eq_append, ← List.cons_append, List.getLast?_concat] at hlast
          exact Option.some.inj hlast
        rw [← hfirst, ← hlast]
        have hforward := h.forward
        rw [List.map_cons, List.pairwise_cons] at hforward
        exact hforward.1 _ (by simp)

/-! ## Runs -/

variable [Field T] [LinearOrder T] [FloorRing T]

/-- What is known of a clock since it was started: where its frames have taken it, and whether it
has come to the time at which it stops, which is told once. -/
structure Course (react : React T C W) (group : String) (start : Timeline T (Subscriber C))
    (frames : List (Delivered T C W)) (p : Timeline T Unit) : Prop where
  fresh : frames = [] → p.SetAs start ∧ p.time = start.time ∧ p.lastTimestamp = none ∧
    p.running = true
  along : ∀ first last, Spans first last frames →
    Timeline.Along start (start.time + (last - first)) last p
  untold : p.running = true → ∀ frame ∈ frames, ∀ told ∈ frame.notices react group,
    ∀ duration, start.final? = some duration → told.2 ≠ duration
  ended : p.running = false → p.handle = none ∧
    ∀ duration, start.final? = some duration → ToldOnce react group duration frames

variable {start : Timeline T (Subscriber C)} {frames : List (Delivered T C W)}
  {p : Timeline T Unit} {timestamp first : T}

/-- A frame takes a clock that runs where the time since the first frame does. -/
theorem Course.moved [ExactTime T] (h : Course react group start frames p)
    (hstart : start.Nonnegative) (hrun : p.running = true)
    (hspans : Spans first timestamp (frames ++ [⟨timestamp, s⟩])) :
    Timeline.Along start (start.time + (timestamp - first)) timestamp (p.moved timestamp) := by
  obtain ⟨-, ⟨hnil, hfirst⟩ | ⟨before, hbefore, hforward⟩⟩ := hspans.split
  · obtain ⟨hset, htime, hlast, -⟩ := h.fresh hnil
    rw [hfirst, sub_self, add_zero]
    exact hset.moved_first hstart htime hlast
  · have htotal : 0 ≤ start.time + (before - first) :=
      add_nonneg hstart.time (sub_nonneg.mpr hbefore.le)
    have hmoved := (h.along first before hbefore).moved hstart htotal hrun hforward
    have hsum : start.time + (before - first) + (timestamp - before) =
        start.time + (timestamp - first) := by ring
    rw [hsum] at hmoved
    exact hmoved

/-- A frame of a clock that runs. It tells the time of the clock, and that is its duration if and
only if the clock stops. -/
theorem Course.running [ExactTime T] (h : Course react group start frames p)
    (hstart : start.Nonnegative) (hp : s.pace? group = some p) (hrun : p.running = true)
    {first : T} (hspans : Spans first timestamp (frames ++ [⟨timestamp, s⟩])) {handle : Option Nat}
    (hhandle : (p.moved timestamp).running = false → handle = none) :
    Course react group start (frames ++ [⟨timestamp, s⟩]) { p.moved timestamp with handle } := by
  obtain ⟨tl, htl, rfl⟩ := timeline?_of_pace? hp
  have halong := h.moved hstart hrun hspans
  have hsame : ∀ told ∈ Delivered.notices react group ⟨timestamp, s⟩,
      told.2 = (tl.moved timestamp).time := notices_same htl
  have htime : (tl.moved timestamp).time = start.reach (start.time + (timestamp - first)) :=
    halong.time
  refine ⟨fun hnil => absurd hnil (by simp), fun first' last hspans' => ?_, fun hruns => ?_,
    fun hstopped => ⟨hhandle hstopped, fun duration hfinal => ?_⟩⟩
  · obtain rfl : timestamp = last := hspans'.split.1
    obtain rfl : first = first' := Option.some.inj (hspans.first.symm.trans hspans'.first)
    exact ⟨⟨halong.mode, halong.loop, halong.duration, halong.fps⟩, halong.time, halong.last,
      halong.runs⟩
  · intro frame hframe told htold duration hfinal
    rcases List.mem_append.mp hframe with hframe | hframe
    · exact h.untold hrun frame hframe told htold duration hfinal
    · obtain rfl := List.mem_singleton.mp hframe
      have hbefore := halong.runs.mp hruns duration hfinal
      rw [hsame told htold, htime, Timeline.reach_stopping hfinal, min_eq_right hbefore.le]
      exact hbefore.ne
  · have hover : duration ≤ start.time + (timestamp - first) := by
      by_contra hunder
      have hruns := halong.runs.mpr fun duration' hfinal' => by
        obtain rfl := Option.some.inj (hfinal.symm.trans hfinal')
        exact not_le.mp hunder
      rw [show (tl.pace.moved timestamp).running = false from hstopped] at hruns
      cases hruns
    have hreached : (tl.moved timestamp).time = duration := by
      rw [htime, Timeline.reach_stopping hfinal, min_eq_left hover]
    refine ⟨frames, ⟨timestamp, s⟩, [], tl, rfl, htl, ?_, fun other hother told htold => ?_⟩
    · rintro ⟨rate, hrate⟩
      have hnumber : (tl.moved timestamp).frameNumber = _ := ExactTime.frameAt_eq hrate _
      rw [← hreached]
      have htl' : (Delivered.mk timestamp s).stage.timeline? group = some tl := htl
      exact announces_moved htl' hrun hnumber
    · rw [List.append_nil] at hother
      exact h.untold hrun other hother told htold duration hfinal

/-- A frame of a clock that has stopped. -/
theorem Course.stopped [IsStrictOrderedRing T] (h : Course react group start frames p)
    (hp : s.pace? group = some p) (hstopped : p.running = false) :
    Course react group start (frames ++ [⟨timestamp, s⟩]) { p with handle := none } := by
  obtain ⟨tl, htl, rfl⟩ := timeline?_of_pace? hp
  have hnone : Delivered.notices react group ⟨timestamp, s⟩ = [] := notices_rests htl hstopped
  refine ⟨fun hnil => absurd hnil (by simp), fun first last hspans => ?_, fun hruns => ?_,
    fun _ => ⟨rfl, fun duration hfinal => ?_⟩⟩
  · obtain ⟨-, ⟨hnil, -⟩ | ⟨before, hbefore, hforward⟩⟩ := hspans.split
    · obtain ⟨-, -, -, hruns⟩ := h.fresh hnil
      rw [hstopped] at hruns
      cases hruns
    · have hlater : start.time + (before - first) ≤ start.time + (last - first) := by gcongr
      have halong : Timeline.Along start (start.time + (last - first)) last tl.pace :=
        (h.along first before hbefore).later hstopped hlater
      exact ⟨⟨halong.mode, halong.loop, halong.duration, halong.fps⟩, halong.time, halong.last,
        halong.runs⟩
  · rw [show tl.pace.running = true from hruns] at hstopped
    cases hstopped
  · refine ((h.ended hstopped).2 duration hfinal).snoc ?_
    rw [hnone]
    exact fun told htold => absurd htold List.not_mem_nil

/-- The course of a clock, frame by frame. -/
theorem Played.course [ExactTime T] (hreact : Spares react group)
    (hclock : s.timeline? group = some start) (hrest : start.running = false)
    (hstart : start.Nonnegative) {frames : List (Delivered T C W)}
    (h : Played react group s frames s')
    (hspans : frames = [] ∨ ∃ first last, Spans first last frames) :
    ∃ p, s'.pace? group = some p ∧ Course react group start frames p := by
  induction h with
  | started =>
      obtain ⟨handle, hp⟩ := start_pace hclock hrest
      refine ⟨_, hp, fun _ => ⟨⟨rfl, rfl, rfl, rfl⟩, rfl, rfl, rfl⟩, fun first last hspans => ?_,
        fun _ frame hframe => absurd hframe List.not_mem_nil, fun hstopped => nomatch hstopped⟩
      exact absurd hspans.first (by simp)
  | beside _ hsame ih =>
      obtain ⟨p, hp, hcourse⟩ := ih hspans
      exact ⟨p, hsame.trans hp, hcourse⟩
  | @frame frames s₁ _ timestamp ih =>
      obtain hnil | ⟨first, last, hspans⟩ := hspans
      · exact absurd hnil (by simp)
      obtain ⟨rfl, hinit⟩ := hspans.split
      have hinit : frames = [] ∨ ∃ first last, Spans first last frames := by
        rcases hinit with ⟨hnil, -⟩ | ⟨before, hbefore, -⟩
        · exact .inl hnil
        · exact .inr ⟨first, before, hbefore⟩
      obtain ⟨p, hp, hcourse⟩ := ih hinit
      cases hrun : p.running with
      | true =>
          obtain ⟨handle, hp', hhandle⟩ := tick_pace hreact hp hrun timestamp
          exact ⟨_, hp', hcourse.running hstart hp hrun hspans hhandle⟩
      | false => exact ⟨_, tick_rests hp hrun timestamp, hcourse.stopped hp hrun⟩

/-- After frames between two timestamps a clock is where the time between them takes it. A clock
that comes to the time at which it stops has told it once, and has stopped. Other frames between
the same timestamps lead to the same time. -/
theorem played_elapsed [ExactTime T] (hreact : Spares react group)
    (hclock : s.timeline? group = some start) (hrest : start.running = false)
    (hstart : start.Nonnegative) (hplayed : Played react group s frames s') {first last : T}
    (hspans : Spans first last frames) :
    ∃ tl, s'.timeline? group = some tl ∧ tl.time = start.elapsed (last - first) ∧
      (∀ duration, start.final? = some duration → duration ≤ start.time + (last - first) →
        tl.running = false ∧ tl.handle = none ∧ ToldOnce react group duration frames) ∧
      ∀ (others : List (Delivered T C W)) (s'' : Stage T C W), Played react group s others s'' →
        Spans first last others → (s''.timeline? group).map Timeline.time = some tl.time := by
  have hcourse {others : List (Delivered T C W)} {s'' : Stage T C W}
      (hplayed : Played react group s others s'') (hspans : Spans first last others) :
      ∃ tl, s''.timeline? group = some tl ∧ Course react group start others tl.pace ∧
        Timeline.Along start (start.time + (last - first)) last tl.pace := by
    obtain ⟨p, hp, hcourse⟩ :=
      hplayed.course hreact hclock hrest hstart (.inr ⟨first, last, hspans⟩)
    obtain ⟨tl, htl, rfl⟩ := timeline?_of_pace? hp
    exact ⟨tl, htl, hcourse, hcourse.along first last hspans⟩
  obtain ⟨tl, htl, hended, halong⟩ := hcourse hplayed hspans
  refine ⟨tl, htl, halong.time, fun duration hfinal hover => ?_,
    fun others s'' hothers hspans' => ?_⟩
  · have hstopped : tl.running = false := by
      by_contra hruns
      have hbefore := halong.runs.mp (Bool.eq_true_of_not_eq_false hruns) duration hfinal
      exact absurd hover (not_le.mpr hbefore)
    obtain ⟨hnone, htold⟩ := hended.ended hstopped
    exact ⟨hstopped, hnone, htold duration hfinal⟩
  · obtain ⟨tl', htl', -, halong'⟩ := hcourse hothers hspans'
    rw [htl', Option.map_some]
    exact congrArg some (halong'.time.trans halong.time.symm)

/-- A clock that was sought to one and stops at three, with one subscriber. -/
def shortClock : Timeline Rat (Subscriber Unit) :=
  { id := "a", fps := .int 30, mode := .bounded, loop := false, duration := some 3, time := 1,
    subscribers := [.call ()] }

def shortStage : Stage Rat Unit Unit :=
  { source := .manual 0 {}, timelines := [shortClock], outside := () }

def idle : React Rat Unit Unit := fun _ _ => pure ()

/-- Its last frame but one comes before it stops, and its last one long after. -/
theorem shortStage_elapsed :
    ∃ (frames : List (Delivered Rat Unit Unit)) (s' : Stage Rat Unit Unit),
      Spares idle "a" ∧ shortClock.Nonnegative ∧ Played idle "a" shortStage frames s' ∧
        Spans 10 20 frames ∧ ∃ tl, s'.timeline? "a" = some tl ∧ tl.time = 3 ∧
          tl.running = false ∧ ToldOnce idle "a" 3 frames := by
  have hspares : Spares idle "a" := fun _ _ _ => rfl
  have hclock : shortStage.timeline? "a" = some shortClock := rfl
  have hstart : shortClock.Nonnegative := by
    refine ⟨by decide +kernel, fun duration hduration => ?_⟩
    obtain rfl := Option.some.inj hduration
    decide +kernel
  obtain ⟨frames, s', hplayed, hstamps⟩ : ∃ frames s', Played idle "a" shortStage frames s' ∧
      frames.map Delivered.timestamp = [10, 11, 20] :=
    ⟨_, _, ((Played.started.frame 10).frame 11).frame 20, rfl⟩
  have hspans : Spans 10 20 frames := by
    refine ⟨?_, ?_, ?_⟩
    · rw [hstamps]
      decide +kernel
    · rw [← List.head?_map, hstamps]
      rfl
    · rw [← List.getLast?_map, hstamps]
      rfl
  obtain ⟨tl, htl, htime, hended, -⟩ :=
    played_elapsed hspares hclock rfl hstart hplayed hspans
  obtain ⟨hstopped, -, htold⟩ := hended 3 rfl (by decide +kernel)
  have helapsed : shortClock.elapsed ((20 : Rat) - 10) = 3 := by decide +kernel
  exact ⟨_, _, hspares, hstart, hplayed, hspans, tl, htl, htime.trans helapsed, hstopped, htold⟩

end Stage

end Cuesheet
