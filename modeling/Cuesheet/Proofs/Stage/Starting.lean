import Cuesheet.Proofs.Stage.Courses
import Cuesheet.Proofs.Stage.Hearing
import Mathlib.Data.List.Induction

/-!
# Who started a clock and who stops it

Players share the clock of a group; they are mounted and unmounted, and the clock is started and
stopped directly (`GroupCall`). A chronicle of that remembers which call the clock has been running
since. What matters of a stage is whether the clock is there and runs and who is mounted (`Cast`),
on which every call is a small step (`Cast.next`) that stages follow (`Showing.perform`).

Unmounting stops the clock if the player plays by itself and nobody is left
(`Cast.stopped_of_unmount`), whoever started it. So a clock is only ever stopped by the player that
started it exactly if no player plays by itself, and as long as it is not started directly, exactly
if one player at most does (`unmount_stops_own_iff`).
-/

namespace Cuesheet

/-! ## Calls and what they come to -/

/-- What is asked of players that share a clock, and of the clock. -/
inductive GroupCall where
  | mount (key : Nat)
  | unmount (key : Nat)
  | start
  | stop
  deriving DecidableEq

/-- A call is about one of some players, or about the clock. -/
def GroupCall.Of (mine : Nat → Prop) : GroupCall → Prop
  | .mount key => mine key
  | .unmount key => mine key
  | .start => True
  | .stop => True

/-- What calls have come to, and the call that the clock has been running since. -/
structure Chronicle (σ : Type) where
  now : σ
  starter : Option GroupCall := none

section Chronicle

variable {σ τ : Type} (step : σ → GroupCall → σ) (runs : σ → Bool)

def Chronicle.next (c : Chronicle σ) (call : GroupCall) : Chronicle σ where
  now := step c.now call
  starter := if !runs c.now && runs (step c.now call) then some call else c.starter

/-- The chronicle of some calls. -/
def chronicle (now : σ) (calls : List GroupCall) : Chronicle σ :=
  calls.foldl (Chronicle.next step runs) { now }

/-- Unmounting a player takes the clock from running to stopped. -/
def Stops (now : σ) (key : Nat) : Prop :=
  runs now = true ∧ runs (step now (.unmount key)) = false

/-- Whenever a player that is unmounted stops the clock, the clock has been running since that
player was mounted. -/
def StopsOwn (now : σ) (allowed : GroupCall → Prop) : Prop :=
  ∀ calls key, (∀ call ∈ calls, allowed call) → allowed (.unmount key) →
    Stops step runs (chronicle step runs now calls).now key →
      (chronicle step runs now calls).starter = some (.mount key)

variable {step runs} {step' : τ → GroupCall → τ} {runs' : τ → Bool} {R : σ → τ → Prop}
  {allowed : GroupCall → Prop} {now : σ} {now' : τ}

theorem chronicle_concat (now : σ) (calls : List GroupCall) (call : GroupCall) :
    chronicle step runs now (calls ++ [call]) =
      (chronicle step runs now calls).next step runs call :=
  List.foldl_concat ..

/-- What follows the same steps has the same chronicle. -/
theorem chronicle_follows (hruns : ∀ a b, R a b → runs a = runs' b)
    (hstep : ∀ a b call, allowed call → R a b → R (step a call) (step' b call))
    (hnow : R now now') {calls : List GroupCall} (hcalls : ∀ call ∈ calls, allowed call) :
    R (chronicle step runs now calls).now (chronicle step' runs' now' calls).now ∧
      (chronicle step runs now calls).starter = (chronicle step' runs' now' calls).starter := by
  induction calls using List.reverseRecOn with
  | nil => exact ⟨hnow, rfl⟩
  | append_singleton calls call ih =>
      obtain ⟨hrel, hstarter⟩ := ih fun call hcall => hcalls call (List.mem_append_left _ hcall)
      have hnext := hstep _ _ call
        (hcalls call (List.mem_append_right _ (List.mem_singleton_self _))) hrel
      rw [chronicle_concat, chronicle_concat]
      refine ⟨hnext, ?_⟩
      unfold Chronicle.next
      dsimp only
      rw [hruns _ _ hrel, hruns _ _ hnext, hstarter]

theorem StopsOwn.iff_of_follows (hruns : ∀ a b, R a b → runs a = runs' b)
    (hstep : ∀ a b call, allowed call → R a b → R (step a call) (step' b call))
    (hnow : R now now') : StopsOwn step runs now allowed ↔ StopsOwn step' runs' now' allowed := by
  refine forall_congr' fun calls => forall_congr' fun key => forall_congr' fun hcalls =>
    forall_congr' fun hkey => ?_
  obtain ⟨hrel, hstarter⟩ := chronicle_follows hruns hstep hnow hcalls
  rw [Stops, Stops, hruns _ _ hrel, hruns _ _ (hstep _ _ _ hkey hrel), hstarter]

end Chronicle

/-- Whether the clock of a group is there and runs, and the players that are mounted on it, in the
order in which they were. -/
structure Cast where
  opened : Bool
  running : Bool := false
  seated : List Nat := []

namespace Cast

/-- The cast after a call, given which players play by themselves. A clock that is not there is not
started. -/
def next (plays : Nat → Bool) (cast : Cast) : GroupCall → Cast
  | .mount key =>
    if key ∈ cast.seated then cast
    else {
      opened := true
      running := cast.running || plays key
      seated := cast.seated ++ [key] }
  | .unmount key =>
    if key ∈ cast.seated then
      let rest := cast.seated.erase key
      { cast with running := cast.running && !(plays key && rest.isEmpty), seated := rest }
    else cast
  | .start => { cast with running := cast.opened }
  | .stop => { cast with running := false }

variable {plays : Nat → Bool} {mine : Nat → Prop} {cast : Cast} {call : GroupCall} {key : Nat}

/-- Unmounting stops the clock only if the player plays by itself and nobody is left. -/
theorem stopped_of_unmount (h : Stops (next plays) running cast key) :
    plays key = true ∧ (cast.next plays (.unmount key)).seated = [] := by
  obtain ⟨hrun, hstop⟩ := h
  unfold next at hstop ⊢
  dsimp only at hstop ⊢
  split at hstop
  · rename_i hmem
    rw [if_pos hmem]
    rw [hrun, Bool.true_and, Bool.not_eq_false', Bool.and_eq_true, List.isEmpty_iff] at hstop
    exact hstop
  · rw [hrun] at hstop
    cases hstop

theorem opened_unmount : (cast.next plays (.unmount key)).opened = cast.opened := by
  unfold next
  dsimp only
  split <;> rfl

/-- A clock is started by a player that plays by itself when it is mounted, or directly. -/
theorem started (hstill : cast.running = false) (hrun : (cast.next plays call).running = true) :
    call = .start ∨ ∃ key, call = .mount key ∧ plays key = true := by
  cases call with
  | start => exact .inl rfl
  | stop => cases hrun
  | mount key =>
      unfold next at hrun
      dsimp only at hrun
      split at hrun
      · rw [hstill] at hrun
        cases hrun
      · rw [hstill, Bool.false_or] at hrun
        exact .inr ⟨key, rfl, hrun⟩
  | unmount key =>
      unfold next at hrun
      dsimp only at hrun
      split at hrun
      · rw [hstill, Bool.false_and] at hrun
        cases hrun
      · rw [hstill] at hrun
        cases hrun

/-- A clock that runs has been running since one of the calls, which was a direct start or mounted a
player that plays by itself. -/
theorem starter_of_running (opened : Bool) {calls : List GroupCall}
    (hrun : (chronicle (next plays) running { opened } calls).now.running = true) :
    ∃ call ∈ calls, (chronicle (next plays) running { opened } calls).starter = some call ∧
      (call = .start ∨ ∃ key, call = .mount key ∧ plays key = true) := by
  induction calls using List.reverseRecOn with
  | nil => cases hrun
  | append_singleton calls call ih =>
      rw [chronicle_concat] at hrun ⊢
      unfold Chronicle.next at hrun ⊢
      dsimp only at hrun ⊢
      cases hbefore : (chronicle (next plays) running { opened } calls).now.running with
      | true =>
          obtain ⟨starter, hmem, hstarter, hkind⟩ := ih hbefore
          exact ⟨starter, List.mem_append_left _ hmem, hstarter, hkind⟩
      | false =>
          rw [hrun]
          exact ⟨call, List.mem_append_right _ (List.mem_singleton_self _), rfl,
            started hbefore hrun⟩

/-- A clock is only ever stopped by the player that started it exactly if no player plays by
itself. -/
theorem stopsOwn_iff (opened : Bool) :
    StopsOwn (next plays) running { opened } (GroupCall.Of mine) ↔
      ∀ key, mine key → plays key = false := by
  constructor
  · intro hown key hkey
    by_contra hplays
    rw [Bool.not_eq_false] at hplays
    -- the player leaves a clock that was started directly before the player came
    have hstarter := hown [.mount key, .unmount key, .start, .mount key] key
      (by simp [GroupCall.Of, hkey]) hkey
      (by simp [Stops, chronicle, Chronicle.next, next, hplays])
    simp [chronicle, Chronicle.next, next, hplays] at hstarter
  · intro hnone calls key _ hkey hstops
    have hplays := (stopped_of_unmount hstops).1
    rw [hnone key hkey] at hplays
    cases hplays

/-- A clock that is not started directly is only ever stopped by the player that started it exactly
if one player at most plays by itself. -/
theorem stopsOwn_indirect_iff (opened : Bool) :
    StopsOwn (next plays) running { opened } (fun call => call.Of mine ∧ call ≠ .start) ↔
      ∀ key other, mine key → mine other → plays key = true → plays other = true →
        key = other := by
  constructor
  · intro hown key other hkey hother hplays hothers
    by_contra hne
    -- the player that started the clock leaves first
    have hstarter := hown [.mount key, .mount other, .unmount key] other
      (by simp [GroupCall.Of, hkey, hother]) (by simp [GroupCall.Of, hother])
      (by simp [Stops, chronicle, Chronicle.next, next, hplays, hothers, Ne.symm hne])
    simp [chronicle, Chronicle.next, next, hplays, hothers, hne, Ne.symm hne] at hstarter
  · intro hone calls key hcalls hkey hstops
    obtain ⟨call, hcall, hstarter, hkind⟩ := starter_of_running opened hstops.1
    rcases hkind with rfl | ⟨starter, rfl, hplays⟩
    · exact absurd rfl (hcalls _ hcall).2
    · rw [hstarter, hone starter key (hcalls _ hcall).1 hkey.1 hplays (stopped_of_unmount hstops).1]

end Cast

namespace Stage

variable {T C W : Type} [TimeScalar T] {react : React T C W} {group : String} {key : Nat}
  {s₀ s s' : Stage T C W} {cast : Cast}

/-! ## Stages that show a cast -/

/-- Callbacks that look on: they do not fail, and touch nothing that is live. -/
def Harmless (react : React T C W) : Prop :=
  ∀ c notice s, ∃ w, react c notice s = .ok () { s with outside := w }

/-- Whether a player plays by itself. -/
def playsItself (s : Stage T C W) (key : Nat) : Bool :=
  (s.players[key]?).any fun p => p.options.autoPlay

/-- A player is there and shares the clock of a group. -/
def Shares (s : Stage T C W) (group : String) (key : Nat) : Prop :=
  ∃ p, s.players[key]? = some p ∧ p.group = group

/-- The clock of a group runs. -/
def runsClock (group : String) (s : Stage T C W) : Bool :=
  (s.timeline? group).any fun tl => tl.running

/-- What a player asks of a clock that it makes. -/
def settings (p : Player T C) : ClockSettings T where
  fps := p.composition.fps
  mode := p.options.clockMode
  loop := p.options.loop
  duration := p.duration

/-- Any player that shares the clock of a group can make it. -/
def CanMake (s : Stage T C W) (group : String) : Prop :=
  ∀ (key : Nat) (p : Player T C), s.players[key]? = some p → p.group = group →
    ∃ tl : Timeline T (Subscriber C), Timeline.create group (settings p) = .ok tl

/-- Nobody of a group is mounted, and its clock stands still, or is not there but can be made. -/
structure Fresh (s : Stage T C W) (group : String) : Prop where
  clock : ∀ tl, s.timeline? group = some tl → tl.running = false ∧ tl.subscribers = []
  made : s.timeline? group = none → CanMake s group
  players : ∀ (key : Nat) (p : Player T C), s.players[key]? = some p → p.group = group →
    p.mounted = false
  source : s.source ≠ .stalled

/-- A stage shows a cast: the clock of the group is there and runs or not, and the players of the
group, as they were at first, are mounted or not. -/
structure Showing (s₀ : Stage T C W) (group : String) (cast : Cast) (s : Stage T C W) : Prop where
  clock : cast.opened = true → ∃ tl, s.timeline? group = some tl ∧ tl.running = cast.running ∧
    tl.subscribers = cast.seated.map .player
  unopened : cast.opened = false → s.timeline? group = none ∧ cast.running = false ∧
    cast.seated = [] ∧ CanMake s₀ group
  players : ∀ (key : Nat) (p : Player T C), s₀.players[key]? = some p → p.group = group → ∃ owns,
    s.players[key]? = some { p with mounted := decide (key ∈ cast.seated), ownsTimeline := owns }
  seated : cast.seated.Nodup
  source : s.source ≠ .stalled

theorem Fresh.showing (h : Fresh s group) :
    Showing s group { opened := (s.timeline? group).isSome } s where
  clock hopen := by
    obtain ⟨tl, htl⟩ := Option.isSome_iff_exists.mp hopen
    exact ⟨tl, htl, h.clock tl htl⟩
  unopened hopen := by
    have hnone := Option.isSome_eq_false_iff.mp hopen
    rw [Option.isNone_iff_eq_none] at hnone
    exact ⟨hnone, rfl, rfl, h.made hnone⟩
  players key p hp hgroup := by
    refine ⟨p.ownsTimeline, ?_⟩
    rw [hp, decide_eq_false List.not_mem_nil, ← h.players key p hp hgroup]
  seated := List.nodup_nil
  source := h.source

namespace Showing

theorem runsClock_eq (h : Showing s₀ group cast s) : runsClock group s = cast.running := by
  cases hopen : cast.opened with
  | true =>
      obtain ⟨tl, htl, hrun, -⟩ := h.clock hopen
      rw [runsClock, htl, ← hrun]
      rfl
  | false =>
      obtain ⟨hnone, hrun, -⟩ := h.unopened hopen
      rw [runsClock, hnone, hrun]
      rfl

theorem withSource (h : Showing s₀ group cast s) {source : FrameSource T (FrameTask C)}
    (hsource : source ≠ .stalled) : Showing s₀ group cast { s with source } :=
  ⟨h.clock, h.unopened, h.players, h.seated, hsource⟩

/-- The clock may change otherwise than in who subscribes to it. -/
theorem modifyClock (h : Showing s₀ group cast s) (hopen : cast.opened = true) (running : Bool)
    {f : Timeline T (Subscriber C) → Timeline T (Subscriber C)}
    (hid : ∀ tl, tl.id = group → (f tl).id = group)
    (hrunning : ∀ tl : Timeline T (Subscriber C), tl.running = cast.running →
      (f tl).running = running)
    (hsubscribers : ∀ tl : Timeline T (Subscriber C), (f tl).subscribers = tl.subscribers) :
    Showing s₀ group { cast with running } (s.modifyTimeline group f) where
  clock _ := by
    obtain ⟨tl, htl, hrun, hsubs⟩ := h.clock hopen
    refine ⟨f tl, ?_, hrunning tl hrun, (hsubscribers tl).trans hsubs⟩
    rw [timeline?_modifyTimeline s hid, if_pos rfl, htl]
    rfl
  unopened hclosed := by
    rw [hopen] at hclosed
    cases hclosed
  players := h.players
  seated := h.seated
  source := h.source

theorem request (task : FrameTask C) : Goes (Showing s₀ group cast) (Stage.request task) :=
  .request (fun _ h => h.source) (fun _ _ hsource h => h.withSource hsource) task

theorem cancelIf (handle : Option Nat) :
    Goes (Showing s₀ group cast : Stage T C W → Prop) (Stage.cancelIf handle) := by
  cases handle with
  | none => exact .pure ()
  | some handle =>
      refine .change fun s h => h.withSource ?_
      have hrequests := h.source
      cases heq : s.source with
      | manual now queue => nofun
      | paced now interval queue => nofun
      | stalled => exact absurd heq hrequests

/-! ## The clock alone -/

theorem start (h : Showing s₀ group cast s) : ∃ s', Stage.start group s = .ok () s' ∧
    Showing s₀ group { cast with running := cast.opened } s' := by
  obtain ⟨opened, running, seated⟩ := cast
  cases opened with
  | false =>
      obtain ⟨hnone, rfl, -⟩ := h.unopened rfl
      exact ⟨s, lookup_none hnone _ _, h⟩
  | true =>
      obtain ⟨tl, htl, rfl, -⟩ := h.clock rfl
      have hlookup : Stage.start group s = _ := lookup_some htl _ _
      rw [hlookup]
      cases hrun : tl.running with
      | true =>
          rw [if_pos rfl]
          rw [hrun] at h
          exact ⟨s, rfl, h⟩
      | false =>
          rw [if_neg Bool.false_ne_true]
          have hs₁ := h.modifyClock rfl true (f := fun tl =>
            { tl with running := true, lastTimestamp := none }) (fun _ hid => hid) (fun _ _ => rfl)
            fun _ => rfl
          have hrest : Goes (Showing s₀ group { opened := true, running := true, seated }) (do
              let handle ← Stage.request (.tick group)
              modify fun s => s.modifyTimeline group fun tl => { tl with handle := some handle }) :=
            .bind (request _) fun handle => .change fun s hs =>
              hs.modifyClock rfl true (fun _ hid => hid) (fun _ hrun => hrun) fun _ => rfl
          obtain ⟨_, s', hs', hshow⟩ := hrest _ hs₁
          exact ⟨s', (bind_ok rfl _).trans hs', hshow⟩

theorem stop (h : Showing s₀ group cast s) : ∃ s', Stage.stop group s = .ok () s' ∧
    Showing s₀ group { cast with running := false } s' := by
  obtain ⟨opened, running, seated⟩ := cast
  cases opened with
  | false =>
      obtain ⟨hnone, rfl, -⟩ := h.unopened rfl
      exact ⟨s, lookup_none hnone _ _, h⟩
  | true =>
      obtain ⟨tl, htl, -⟩ := h.clock rfl
      have hlookup : Stage.stop group s = _ := lookup_some htl _ _
      obtain ⟨_, s₁, hcancel, hs₁⟩ := cancelIf tl.handle s h
      refine ⟨_, hlookup.trans (bind_ok hcancel _), ?_⟩
      exact hs₁.modifyClock rfl false (fun _ hid => hid) (fun _ _ => rfl) fun _ => rfl

/-! ## Seats -/

/-- The players of the group are there, and those that are mounted have taken their seats. -/
theorem player (h : Showing s₀ group cast s) (hkey : Shares s₀ group key) : ∃ p,
    s.players[key]? = some p ∧ p.group = group ∧ p.mounted = decide (key ∈ cast.seated) ∧
      p.options.autoPlay = playsItself s₀ key := by
  obtain ⟨p, hp, hgroup⟩ := hkey
  obtain ⟨owns, hplayer⟩ := h.players key p hp hgroup
  refine ⟨_, hplayer, hgroup, rfl, ?_⟩
  rw [playsItself, hp]
  rfl

/-- It does not matter whether a player has made the clock. -/
theorem own (h : Showing s₀ group cast s) (key : Nat) (owns : Bool) :
    Showing s₀ group cast (s.modifyPlayer key fun q => { q with ownsTimeline := owns }) where
  clock := h.clock
  unopened := h.unopened
  players other p hp hother := by
    obtain ⟨before, hq⟩ := h.players other p hp hother
    by_cases hkey : other = key
    · subst hkey
      refine ⟨owns, ?_⟩
      rw [players_modifyPlayer, hq]
      rfl
    · refine ⟨before, ?_⟩
      unfold modifyPlayer
      rw [List.getElem?_modify_ne _ _ (Ne.symm hkey), hq]
  seated := h.seated
  source := h.source

/-- A clock that is made does not run yet. -/
theorem running_of_create {settings : ClockSettings T} {tl : Timeline T (Subscriber C)}
    (h : Timeline.create group settings = .ok tl) : tl.running = false := by
  unfold Timeline.create at h
  split at h
  · cases h
  · split at h
    · cases h
    · cases h
      rfl

/-- A player of the group finds its clock or makes it. -/
theorem openTimeline (h : Showing s₀ group cast s) {p : Player T C}
    (hp : s₀.players[key]? = some p) (hgroup : p.group = group) :
    ∃ made s', Stage.openTimeline group (settings p) s = .ok made s' ∧
      Showing s₀ group { cast with opened := true } s' := by
  rw [openTimeline_eq]
  obtain ⟨opened, running, seated⟩ := cast
  cases opened with
  | true =>
      obtain ⟨tl, htl, -⟩ := h.clock rfl
      rw [htl]
      exact ⟨_, s, rfl, h⟩
  | false =>
      obtain ⟨hnone, rfl, rfl, hmake⟩ := h.unopened rfl
      obtain ⟨tl, hcreate⟩ := hmake key p hp hgroup
      rw [hnone, hcreate]
      refine ⟨_, _, rfl, fun _ => ⟨tl, ?_, running_of_create hcreate, (of_create hcreate).2.1⟩,
        nofun, h.players, h.seated, h.source⟩
      rw [timeline?_append, hnone, (of_create hcreate).1, BEq.rfl]
      rfl

/-- A player takes its seat or leaves it, and subscribes or does so no longer. -/
theorem reseat (h : Showing s₀ group cast s) (hopen : cast.opened = true) (key : Nat)
    (mounted : Bool) (seated : List Nat) {f : List (Subscriber C) → List (Subscriber C)}
    (hf : f (cast.seated.map .player) = seated.map .player) (hnodup : seated.Nodup)
    (hmounted : mounted = decide (key ∈ seated))
    (hothers : ∀ other, other ≠ key → (other ∈ seated ↔ other ∈ cast.seated)) :
    Showing s₀ group { cast with seated }
      ((s.modifyPlayer key fun q => { q with mounted }).modifyTimeline group fun tl =>
        { tl with subscribers := f tl.subscribers }) where
  clock _ := by
    obtain ⟨tl, htl, hrun, hsubs⟩ := h.clock hopen
    refine ⟨{ tl with subscribers := f tl.subscribers }, ?_, hrun, ?_⟩
    · rw [timeline?_modifyTimeline _ (by exact fun _ hid => hid), if_pos rfl]
      exact congrArg (Option.map _) htl
    · rw [← hf, ← hsubs]
  unopened hclosed := by
    rw [hopen] at hclosed
    cases hclosed
  players other p hp hother := by
    obtain ⟨owns, hq⟩ := h.players other p hp hother
    refine ⟨owns, ?_⟩
    show (modifyPlayer s key _).players[other]? = _
    by_cases hkey : other = key
    · subst hkey
      rw [players_modifyPlayer, hq, hmounted]
      rfl
    · unfold modifyPlayer
      rw [List.getElem?_modify_ne _ _ (Ne.symm hkey), hq,
        decide_eq_decide.mpr (hothers other hkey)]
  seated := hnodup
  source := h.source

/-- Callbacks that look on are no trouble when a player is mounted. -/
theorem greet (hreact : Harmless react) (c : C) (notice : Notice T) :
    Goes (Showing s₀ group cast) (react c notice) := by
  intro s h
  obtain ⟨w, hw⟩ := hreact c notice s
  exact ⟨(), _, hw, h.clock, h.unopened, h.players, h.seated, h.source⟩

theorem mount (hreact : Harmless react) (h : Showing s₀ group cast s)
    (hkey : Shares s₀ group key) : ∃ s', Stage.mount react key s = .ok () s' ∧
      Showing s₀ group (cast.next (playsItself s₀) (.mount key)) s' := by
  obtain ⟨p, hp, rfl, hmounted, hplays⟩ := h.player hkey
  unfold Cast.next
  dsimp only
  by_cases hmem : key ∈ cast.seated
  · rw [if_pos hmem]
    rw [decide_eq_true hmem] at hmounted
    exact ⟨s, (withPlayer_some hp _).trans (congrFun (if_pos hmounted) s), h⟩
  rw [if_neg hmem, mount_eq hp (hmounted.trans (decide_eq_false hmem)), ← hplays]
  obtain ⟨q, hq, hgroup⟩ := hkey
  have hsettings : settings q = settings p := by
    obtain ⟨_, hplayer⟩ := h.players key q hq hgroup
    obtain rfl := Option.some.inj (hp.symm.trans hplayer)
    rfl
  obtain ⟨made, s₁, hopen, hs₁⟩ := (h.own key (s.timeline? p.group).isNone).openTimeline hq hgroup
  rw [hsettings] at hopen
  have htell : Goes
      (Showing s₀ p.group { cast with opened := true, seated := cast.seated ++ [key] })
      (tell react p.options.onError (.error none)) :=
    .tell (fun c => greet hreact c _) _
  have hsat := hs₁.reseat rfl key true (cast.seated ++ [key]) (f := (· ++ [.player key])) (by simp)
    (List.concat_eq_append ▸ List.Nodup.concat hmem h.seated) (by simp)
    fun other hother => by simp [hother]
  obtain ⟨_, s₂, htold, hs₂⟩ := htell _ hsat
  obtain ⟨_, s₃, hscripts, hs₃⟩ :=
    Goes.runScripts (fun hook invocation => (greet hreact hook (.handler invocation)).keeps) key
      _ hs₂
  have harrive : arrive react key p s₁ =
      (if p.options.autoPlay then Stage.start p.group else pure ()) s₃ :=
    (bind_ok rfl _).trans ((bind_ok rfl _).trans ((bind_ok htold _).trans (bind_ok hscripts _)))
  have hplay : ∃ s', (if p.options.autoPlay then Stage.start p.group else pure ()) s₃ = .ok () s' ∧
      Showing s₀ p.group {
        opened := true
        running := cast.running || p.options.autoPlay
        seated := cast.seated ++ [key] } s' := by
    cases p.options.autoPlay with
    | true =>
        rw [Bool.or_true]
        exact hs₃.start
    | false =>
        rw [Bool.or_false]
        exact ⟨s₃, rfl, hs₃⟩
  obtain ⟨s', hs', hshow⟩ := hplay
  exact ⟨s', (bind_ok hopen _).trans (harrive.trans hs'), hshow⟩

variable [DecidableEq C]

omit [TimeScalar T] [DecidableEq C] in
/-- Stopping a clock has nothing to do with players. -/
theorem stop_updatePlayer (s : Stage T C W) (group : String) (key : Nat)
    (f : Player T C → Player T C) :
    (do Stage.stop group; updatePlayer key f) s = Stage.stop group (s.modifyPlayer key f) := by
  cases htl : s.timeline? group with
  | none =>
      have hstop (s : Stage T C W) (htl : s.timeline? group = none) :
          Stage.stop group s = .ok () s := lookup_none htl ..
      exact (bind_ok (hstop s htl) _).trans (hstop (s.modifyPlayer key f) htl).symm
  | some tl =>
      have hstop (s : Stage T C W) (htl : s.timeline? group = some tl) :
          Stage.stop group s = .ok () (modifyTimeline
            { s with source := tl.handle.elim s.source s.source.cancel } group .halted) := by
        refine (lookup_some htl _ _).trans ?_
        cases tl.handle <;> rfl
      exact (bind_ok (hstop s htl) _).trans (hstop (s.modifyPlayer key f) htl).symm

theorem unmount (h : Showing s₀ group cast s) (hkey : Shares s₀ group key) :
    ∃ s', Stage.unmount key s = .ok () s' ∧
      Showing s₀ group (cast.next (playsItself s₀) (.unmount key)) s' := by
  obtain ⟨p, hp, rfl, hmounted, hplays⟩ := h.player hkey
  unfold Cast.next
  dsimp only
  by_cases hmem : key ∈ cast.seated
  · have hopen : cast.opened = true := by
      by_contra hclosed
      rw [(h.unopened (Bool.eq_false_iff.mpr hclosed)).2.2.1] at hmem
      cases hmem
    have hleft := h.reseat hopen key false (cast.seated.erase key) (f := (·.erase (.player key)))
      (List.map_erase (f := Subscriber.player) (fun _ _ => Subscriber.player.inj) _).symm
      (h.seated.erase key) (decide_eq_false h.seated.not_mem_erase).symm
      fun other hother => List.mem_erase_of_ne hother
    obtain ⟨tl, htl, -, hsubs⟩ := hleft.clock hopen
    rw [decide_eq_true hmem] at hmounted
    have hunmount : Stage.unmount key s =
        (if p.options.autoPlay && tl.subscribers.isEmpty then do
            Stage.stop p.group
            updatePlayer key fun q => { q with mounted := false }
          else updatePlayer key fun q => { q with mounted := false })
        (s.modifyTimeline p.group fun tl =>
          { tl with subscribers := tl.subscribers.erase (.player key) }) := by
      refine (withPlayer_some hp _).trans ((congrFun (if_neg (by simp [hmounted])) s).trans ?_)
      refine (bind_ok rfl _).trans ((get_bind _ _).trans ?_)
      dsimp only
      rw [show timeline? (s.modifyTimeline p.group _) p.group = some tl from htl]
    rw [if_pos hmem, hunmount, hsubs, hplays, List.isEmpty_map]
    cases playsItself s₀ key && (cast.seated.erase key).isEmpty with
    | true =>
        rw [if_pos rfl, stop_updatePlayer, Bool.not_true, Bool.and_false]
        exact hleft.stop
    | false =>
        rw [if_neg Bool.false_ne_true, Bool.not_false, Bool.and_true]
        exact ⟨_, rfl, hleft⟩
  · rw [if_neg hmem]
    rw [decide_eq_false hmem] at hmounted
    exact ⟨s, (withPlayer_some hp _).trans (congrFun (if_pos (by rw [hmounted]; rfl)) s), h⟩

end Showing

/-! ## Histories -/

section

variable [DecidableEq C]

/-- Carries out a call about the players and the clock of a group. -/
def perform (react : React T C W) (group : String) : GroupCall → Action T C W Unit
  | .mount key => mount react key
  | .unmount key => unmount key
  | .start => start group
  | .stop => stop group

/-- The stage after a call. -/
def performed (react : React T C W) (group : String) (s : Stage T C W) (call : GroupCall) :
    Stage T C W :=
  after (perform react group call) s

/-- A call goes through, and does to a stage what it does to the cast that the stage shows. -/
theorem Showing.perform (hreact : Harmless react) (h : Showing s₀ group cast s)
    {call : GroupCall} (hcall : call.Of (Shares s₀ group)) :
    ∃ s', Stage.perform react group call s = .ok () s' ∧
      Showing s₀ group (cast.next (playsItself s₀) call) s' := by
  cases call with
  | mount key => exact h.mount hreact hcall
  | unmount key => exact h.unmount hcall
  | start => exact h.start
  | stop => exact h.stop

theorem Showing.performed (hreact : Harmless react) (h : Showing s₀ group cast s)
    (call : GroupCall) (hcall : call.Of (Shares s₀ group)) :
    Showing s₀ group (cast.next (playsItself s₀) call) (Stage.performed react group s call) := by
  obtain ⟨s', hs', hshow⟩ := h.perform hreact hcall
  rw [Stage.performed, after, hs']
  exact hshow

/-- Unmounting a player stops the clock only if the player plays by itself and no subscriber is
left. -/
theorem Showing.stopped (hreact : Harmless react) (h : Showing s₀ group cast s)
    (hkey : Shares s₀ group key)
    (hstops : Stops (Stage.performed react group) (runsClock group) s key) :
    playsItself s₀ key = true ∧ ∃ tl,
      (Stage.performed react group s (.unmount key)).timeline? group = some tl ∧
        tl.subscribers = [] := by
  have hleft := h.performed hreact (.unmount key) hkey
  obtain ⟨hrun, hstop⟩ := hstops
  rw [h.runsClock_eq] at hrun
  rw [hleft.runsClock_eq] at hstop
  obtain ⟨hplays, hseated⟩ := Cast.stopped_of_unmount ⟨hrun, hstop⟩
  have hopen : (cast.next (playsItself s₀) (.unmount key)).opened = true := by
    rw [Cast.opened_unmount]
    by_contra hclosed
    rw [(h.unopened (Bool.eq_false_iff.mpr hclosed)).2.1] at hrun
    cases hrun
  obtain ⟨tl, htl, -, hsubs⟩ := hleft.clock hopen
  rw [hseated] at hsubs
  exact ⟨hplays, tl, htl, hsubs⟩

/-- Where players share a clock that stands still and nobody is mounted, and whatever calls follow:
a player that is unmounted stops the clock only if it plays by itself and no subscriber is left; it
is always the player that started the clock exactly if no player plays by itself, and as long as
nobody starts the clock directly exactly if one player at most does. -/
theorem unmount_stops_own_iff (hreact : Harmless react) (hfresh : Fresh s group) :
    (∀ calls key, (∀ call ∈ calls, call.Of (Shares s group)) → Shares s group key →
      Stops (performed react group) (runsClock group)
        (chronicle (performed react group) (runsClock group) s calls).now key →
          playsItself s key = true ∧
            ∃ tl, (performed react group
              (chronicle (performed react group) (runsClock group) s calls).now
                (.unmount key)).timeline? group = some tl ∧ tl.subscribers = []) ∧
      (StopsOwn (performed react group) (runsClock group) s (GroupCall.Of (Shares s group)) ↔
        ∀ key, Shares s group key → playsItself s key = false) ∧
      (StopsOwn (performed react group) (runsClock group) s
          (fun call => call.Of (Shares s group) ∧ call ≠ .start) ↔
        ∀ key other, Shares s group key → Shares s group other → playsItself s key = true →
          playsItself s other = true → key = other) := by
  have hruns (cast : Cast) (s' : Stage T C W) (h : Showing s group cast s') :
      cast.running = runsClock group s' := h.runsClock_eq.symm
  have hstep (cast : Cast) (s' : Stage T C W) (call : GroupCall) (hcall : call.Of (Shares s group))
      (h : Showing s group cast s') := h.performed hreact call hcall
  refine ⟨fun calls key hcalls hkey hstops => ?_, ?_, ?_⟩
  · obtain ⟨hshow, -⟩ := chronicle_follows hruns hstep hfresh.showing hcalls
    exact hshow.stopped hreact hkey hstops
  · rw [← StopsOwn.iff_of_follows hruns hstep hfresh.showing, Cast.stopsOwn_iff]
  · rw [← StopsOwn.iff_of_follows hruns (fun _ _ call hcall => hstep _ _ call hcall.1)
      hfresh.showing, Cast.stopsOwn_indirect_iff]

end

/-- A clock that stands still. -/
def unstarted : Timeline Rat (Subscriber Unit) where
  id := "show"
  fps := .int 30
  mode := .live
  loop := false
  duration := none
  time := 0

/-- A clock that stands still, a player that plays by itself and one that does not. -/
def quiet : Stage Rat Unit Unit where
  source := .manual 0 {}
  timelines := [unstarted]
  players := [{ composition := film [], options := {}, group := "show" },
    { composition := film [], options := { autoPlay := false }, group := "show" }]
  outside := ()

theorem unmount_stops_own_quiet :
    StopsOwn (performed still "show") (runsClock "show") quiet
        (fun call => call.Of (Shares quiet "show") ∧ call ≠ .start) ∧
      ¬ StopsOwn (performed still "show") (runsClock "show") quiet
        (GroupCall.Of (Shares quiet "show")) := by
  have hfresh : Fresh quiet "show" := {
    clock := by
      have hunstarted : quiet.timeline? "show" = some unstarted := rfl
      rintro tl htl
      obtain rfl := Option.some.inj (hunstarted.symm.trans htl)
      exact ⟨rfl, rfl⟩
    made := nofun
    players := by
      rintro (_ | _ | key) p hp -
      · cases hp
        rfl
      · cases hp
        rfl
      · cases hp
    source := nofun }
  have honly : ∀ key, playsItself quiet key = true → key = 0 := by
    rintro (_ | _ | key) hplays
    · rfl
    · cases hplays
    · cases hplays
  have hstill : Harmless still := fun _ _ _ => ⟨(), rfl⟩
  obtain ⟨-, hown, hindirect⟩ := unmount_stops_own_iff hstill hfresh
  refine ⟨hindirect.mpr fun key other _ _ hplays hothers => ?_, fun hall => ?_⟩
  · rw [honly key hplays, honly other hothers]
  · cases hown.mp hall 0 ⟨_, rfl, rfl⟩

/-- The clock is started directly, a player that plays by itself is mounted and unmounted again, and
that stops the clock. -/
theorem unmount_stops_other :
    Stops (performed still "show") (runsClock "show")
        (chronicle (performed still "show") (runsClock "show") quiet [.start, .mount 0]).now 0 ∧
      (chronicle (performed still "show") (runsClock "show") quiet [.start, .mount 0]).starter =
        some .start :=
  ⟨⟨by decide +kernel, by decide +kernel⟩, by decide +kernel⟩

end Stage

end Cuesheet
