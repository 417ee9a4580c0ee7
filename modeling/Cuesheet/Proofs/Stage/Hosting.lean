import Cuesheet.Proofs.Document.Reread
import Cuesheet.Proofs.Host.History
import Cuesheet.Proofs.Stage.Hearing
import Cuesheet.Proofs.Time.Exact
import Mathlib.Logic.Relation

/-!
# The last load wins

A host is asked for loads, for closes and to take its player off; fetches end, loads go on after
their fetch in any order, and callbacks may ask the host for something again while a load goes on.
What is asked, and how loads end, is noted in the outside world of the stage, so the history of a
run can be read off the stage that it reaches. `Shows` is what every call keeps (`HostCall.idle`,
`HostCall.shows`) and what a load that goes on keeps (`ends_resumeLoad`, `rests_resume`): the
history agrees with the host, and of the players of the host only the one that it shows is mounted.
While a load mounts its player, the host shows none, so that nothing that is asked then can take the
player off.
-/

namespace Cuesheet.Stage

open HostEvent

variable {T C W : Type}

/-- A player is on its timeline. -/
def Mounted (key : Nat) (s : Stage T C W) : Prop :=
  ∃ p, s.players[key]? = some p ∧ p.mounted = true

variable {host key least load : Nat} {mine : Nat → Prop} {player answer shown : Option Nat}
  {s s' : Stage T C (W × List HostEvent)}

/-! ## What may happen -/

/-- Something else happens than what a host does: the host and its history stay as they are, none
of its players is mounted that was not, and the frame source still takes requests if it did. -/
structure Aside (host : Nat) (mine : Nat → Prop) (s s' : Stage T C (W × List HostEvent)) :
    Prop where
  host : s'.hosts[host]? = s.hosts[host]?
  history : s'.history = s.history
  mounted : ∀ key, mine key → Mounted key s' → Mounted key s
  source : s.source ≠ .stalled → s'.source ≠ .stalled

/-- A host is asked for something, or a fetch ends, or something else happens. A fetch ends with a
text or a message; where it is cancelled, the load is. -/
inductive HostCall [DecidableEq C] (host : Nat) (mine : Nat → Prop)
    (s : Stage T C (W × List HostEvent)) : Stage T C (W × List HostEvent) → Prop
  | load : HostCall host mine s (after (do record (.loaded (← beginLoad host))) s)
  | close : HostCall host mine s (after (do record .closed; closeHost host) s)
  | unmount : HostCall host mine s (after (do record .unmounted; unmountHost host) s)
  | settle (load : Nat) (fetched : Fetched) (hread : ∀ fault, fetched ≠ .broken fault) :
      HostCall host mine s (after (updateLoads host fun loads => loads.settle load fetched) s)
  | cancel (load : Nat) :
      HostCall host mine s (after (updateLoads host fun loads => loads.cancel load) s)
  | aside {s' : Stage T C (W × List HostEvent)} (haside : Aside host mine s s') :
      HostCall host mine s s'

/-- Callbacks ask a host for whatever they like and leave its players alone otherwise, and they do
not fail when they are told that nothing is wrong: one that did would end the load with its player
mounted and the host without one. -/
structure Minds [DecidableEq C] (react : React T C (W × List HostEvent)) (host : Nat)
    (mine : Nat → Prop) : Prop where
  calls : ∀ c notice s, Relation.ReflTransGen (HostCall host mine) s (after (react c notice) s)
  succeeds : ∀ c s, isOk (react c (.error none) s) = true

/-- A load goes on, and how it ends is noted. -/
def resume [TimeScalar T] [DecidableEq C] (react : React T C (W × List HostEvent))
    (host load : Nat) : Action T C (W × List HostEvent) Unit := fun s =>
  match resumeLoad react host load s with
  | .ok result s' => .ok () (s'.recorded (.resumed load (some result)))
  | .error _ s' => .ok () (s'.recorded (.resumed load none))

/-- The stages that are reached while a host is asked for things. A load goes on once, after its
fetch has ended. -/
inductive Hosting [TimeScalar T] [DecidableEq C] (react : React T C (W × List HostEvent))
    (host : Nat) (mine : Nat → Prop) (s : Stage T C (W × List HostEvent)) :
    Stage T C (W × List HostEvent) → Prop
  | refl : Hosting react host mine s s
  | call {s' s'' : Stage T C (W × List HostEvent)} (hrun : Hosting react host mine s s')
      (hcall : HostCall host mine s' s'') : Hosting react host mine s s''
  | resume {s' : Stage T C (W × List HostEvent)} {h : Host C} (load : Nat)
      (hrun : Hosting react host mine s s') (hhost : s'.hosts[host]? = some h)
      (hended : h.loads.continuation load ≠ .waiting)
      (honce : ∀ result, .resumed load result ∉ s'.history) :
      Hosting react host mine s (after (Stage.resume react host load) s')

/-! ## Players of a host -/

/-- What is true of a host: so many loads began, and the history agrees with them; it has a player
or none; and of its players only the one that is shown is mounted. -/
structure Shows (host : Nat) (mine : Nat → Prop) (least : Nat) (player answer shown : Option Nat)
    (s : Stage T C (W × List HostEvent)) : Prop where
  host : ∃ h, s.hosts[host]? = some h ∧ h.player = player ∧ least ≤ h.loads.states.length ∧
    Agrees h.loads answer s.history
  source : s.source ≠ .stalled
  mounted : ∀ key, mine key → Mounted key s → shown = some key

/-- Between two calls the player of a host is the one that is shown and that answers. -/
def Rests (host : Nat) (mine : Nat → Prop) (least : Nat) (s : Stage T C (W × List HostEvent)) :
    Prop := ∃ player, Shows host mine least player player player s

namespace Shows

theorem aside (hs : Shows host mine least player answer shown s) (haside : Aside host mine s s') :
    Shows host mine least player answer shown s' where
  host := by
    rw [haside.host, haside.history]
    exact hs.host
  source := haside.source hs.source
  mounted key hmine hmounted := hs.mounted key hmine (haside.mounted key hmine hmounted)

/-- Where none of the players of a host is mounted, any may be said to be shown. -/
theorem idle (hs : Shows host mine least player answer none s) :
    Shows host mine least player answer shown s :=
  ⟨hs.host, hs.source, fun key hmine hmounted => nomatch hs.mounted key hmine hmounted⟩

/-- A player changes that is shown, or that is not mounted thereby. -/
theorem modifyPlayer (hs : Shows host mine least player answer shown s)
    {f : Player T C → Player T C}
    (hf : ∀ p, (f p).mounted = true → p.mounted = true ∨ shown = some key) :
    Shows host mine least player answer shown (s.modifyPlayer key f) where
  host := hs.host
  source := hs.source
  mounted key' hmine hmounted := by
    obtain ⟨p, hp, hp'⟩ := hmounted
    unfold Stage.modifyPlayer at hp
    rw [List.getElem?_modify] at hp
    obtain ⟨q, hq, rfl⟩ := Option.map_eq_some_iff.mp hp
    split at hp'
    · rename_i hkey
      subst hkey
      exact (hf q hp').elim (fun hq' => hs.mounted key hmine ⟨q, hq, hq'⟩) id
    · exact hs.mounted key' hmine ⟨q, hq, hp'⟩

/-- The loads of a host or its player change, and the history with them. -/
theorem modifyHost (hs : Shows host mine least player answer shown s) {f : Host C → Host C}
    {events : List HostEvent} {player' answer' : Option Nat}
    (hf : ∀ h, s.hosts[host]? = some h → h.player = player → least ≤ h.loads.states.length →
      Agrees h.loads answer s.history →
      (f h).player = player' ∧ least ≤ (f h).loads.states.length ∧
        Agrees (f h).loads answer' events) :
    Shows host mine least player' answer' shown
      { s.modifyHost host f with outside := (s.outside.1, events) } where
  host := by
    obtain ⟨h, hhost, hplayer, hleast, hagrees⟩ := hs.host
    refine ⟨f h, ?_, hf h hhost hplayer hleast hagrees⟩
    unfold Stage.modifyHost
    rw [List.getElem?_modify_eq, hhost]
    rfl
  source := hs.source
  mounted := hs.mounted

end Shows

/-! ## Taking a player off -/

theorem goes_stop (group : String) :
    Goes (Shows host mine least player answer shown : Stage T C (W × List HostEvent) → Prop)
      (stop group) :=
  .stop (fun _ hs => hs.source) (fun _ _ hsource hs => ⟨hs.host, hsource, hs.mounted⟩)
    fun _ _ hs => ⟨hs.host, hs.source, hs.mounted⟩

/-- The last thing that is done when a player is taken off its timeline. -/
theorem dismount_shows (hs : Shows host mine least player answer shown s) :
    ∃ s', updatePlayer key (fun p => { p with mounted := false }) s = .ok () s' ∧
      Shows host mine least player answer shown s' ∧ ¬ Mounted key s' := by
  refine ⟨_, rfl, hs.modifyPlayer (fun _ hq => nomatch hq), ?_⟩
  rintro ⟨q, hq, hq'⟩
  rw [players_modifyPlayer] at hq
  obtain ⟨r, -, rfl⟩ := Option.map_eq_some_iff.mp hq
  cases hq'

section Asking

variable [DecidableEq C]

/-- Nothing can go wrong when a player is taken off its timeline, and it is mounted no longer. -/
theorem unmount_shows (hs : Shows host mine least player answer shown s) (key : Nat) :
    ∃ s', unmount key s = .ok () s' ∧ Shows host mine least player answer shown s' ∧
      ¬ Mounted key s' := by
  cases hp : s.players[key]? with
  | none =>
      refine ⟨s, withPlayer_none hp _, hs, ?_⟩
      rintro ⟨p, hp', -⟩
      cases hp.symm.trans hp'
  | some p =>
      unfold unmount
      rw [withPlayer_some hp]
      cases hmounted : p.mounted with
      | false =>
          refine ⟨s, congrFun (if_pos rfl) s, hs, ?_⟩
          rintro ⟨q, hq, hq'⟩
          obtain rfl := Option.some.inj (hp.symm.trans hq)
          rw [hmounted] at hq'
          cases hq'
      | true =>
          have hs₁ : Shows host mine least player answer shown (s.modifyTimeline p.group fun tl =>
              { tl with subscribers := tl.subscribers.erase (.player key) }) :=
            ⟨hs.host, hs.source, hs.mounted⟩
          have hunsubscribe : unsubscribe p.group (.player key) s =
            .ok () (s.modifyTimeline p.group fun tl =>
              { tl with subscribers := tl.subscribers.erase (.player key) }) := rfl
          rw [if_neg (by simp), bind_ok hunsubscribe, get_bind]
          generalize s.modifyTimeline p.group _ = s₁ at hs₁ ⊢
          cases s₁.timeline? p.group with
          | none => exact dismount_shows hs₁
          | some tl =>
              dsimp only
              split
              · obtain ⟨_, s₂, hstop, hs₂⟩ := goes_stop p.group _ hs₁
                rw [bind_ok hstop]
                exact dismount_shows hs₂
              · exact dismount_shows hs₁

/-- A host without a player has none to take off. -/
theorem unmountHost_idle (hs : Shows host mine least none answer shown s) :
    unmountHost host s = .ok () s := by
  obtain ⟨h, hhost, hplayer, -⟩ := hs.host
  unfold unmountHost
  rw [get_bind, hhost]
  dsimp only
  rw [hplayer]
  rfl

/-- A host takes its player off its timeline, and shows none. -/
theorem unmountHost_shows (hs : Shows host mine least player none player s) :
    ∃ s', unmountHost host s = .ok () s' ∧ Shows host mine least none none none s' := by
  cases player with
  | none => exact ⟨s, unmountHost_idle hs, hs⟩
  | some key =>
      obtain ⟨h, hhost, hplayer, -⟩ := hs.host
      obtain ⟨s₁, hunmount, hs₁, hgone⟩ := unmount_shows hs key
      unfold unmountHost
      rw [get_bind, hhost]
      dsimp only
      rw [hplayer]
      dsimp only
      rw [bind_ok hunmount]
      have hs₂ : Shows host mine least (some key) none none s₁ := by
        refine ⟨hs₁.host, hs₁.source, fun key' hmine hmounted => ?_⟩
        -- only the player that was shown could be mounted
        obtain rfl := Option.some.inj (hs₁.mounted key' hmine hmounted)
        exact absurd hmounted hgone
      exact ⟨_, rfl, hs₂.modifyHost fun _ _ _ hleast hagrees => ⟨rfl, hleast, hagrees⟩⟩

/-! ## What a host is asked for -/

omit [DecidableEq C] in
theorem beginLoad_eq {s : Stage T C W} {h : Host C} (hhost : s.hosts[host]? = some h) :
    beginLoad host s = .ok h.loads.start.1
      (s.modifyHost host fun h => { h with loads := h.loads.start.2 }) := by
  unfold beginLoad
  rw [get_bind, hhost]
  rfl

omit [DecidableEq C] in
theorem load_shows (hs : Shows host mine least player answer shown s) :
    Shows host mine least player answer shown
      (after (do record (.loaded (← beginLoad host))) s) := by
  obtain ⟨h, hhost, -⟩ := hs.host
  unfold after
  rw [bind_ok (beginLoad_eq hhost)]
  refine hs.modifyHost fun h' hhost' hplayer hleast hagrees => ?_
  obtain rfl := Option.some.inj (hhost.symm.trans hhost')
  refine ⟨hplayer, ?_, hagrees.afterLoad⟩
  rw [Loads.start_length, Loads.start_fst]
  exact Nat.le_succ_of_le hleast

omit [DecidableEq C] in
theorem finish_shows (hs : Shows host mine least player answer shown s) (load : Nat)
    {state : LoadState} (hended : state ≠ .pending)
    (hunbroken : ∀ fault, state ≠ .done (.broken fault)) :
    Shows host mine least player answer shown
      (after (updateLoads host fun loads => loads.finish load state) s) := by
  refine hs.modifyHost fun h _ hplayer hleast hagrees => ⟨hplayer, ?_, ?_⟩
  · rw [Loads.finish_length]
    exact hleast
  · exact hagrees.afterFinish load hended hunbroken

omit [DecidableEq C] in
theorem unmounted_shows (hs : Shows host mine least player answer shown s) :
    Shows host mine least player none shown (s.recorded .unmounted) := by
  obtain ⟨h, hhost, hplayer, hleast, hagrees⟩ := hs.host
  exact ⟨⟨h, hhost, hplayer, hleast, hagrees.afterUnmount⟩, hs.source, hs.mounted⟩

omit [DecidableEq C] in
theorem closed_shows (hs : Shows host mine least player answer shown s) :
    Shows host mine least player none shown
      (after (updateLoads host Loads.close) (s.recorded .closed)) := by
  refine hs.modifyHost fun h _ hplayer hleast hagrees => ⟨hplayer, ?_, hagrees.afterClose⟩
  rw [Loads.close_length]
  exact hleast

/-- What a host is asked for leaves it as it is, or takes its player off. -/
theorem HostCall.shows (hcall : HostCall host mine s s')
    (hs : Shows host mine least player answer shown s) :
    Shows host mine least player answer shown s' ∨
      ∃ s₁, Shows host mine least player none shown s₁ ∧ s' = after (unmountHost host) s₁ := by
  cases hcall with
  | load => exact .inl (load_shows hs)
  | close => exact .inr ⟨_, closed_shows hs, rfl⟩
  | unmount => exact .inr ⟨_, unmounted_shows hs, rfl⟩
  | settle load fetched hread =>
      exact .inl (finish_shows hs load nofun fun fault h => hread fault (LoadState.done.inj h))
  | cancel load => exact .inl (finish_shows hs load nofun nofun)
  | aside haside => exact .inl (hs.aside haside)

/-- While a host shows no player, nothing that it is asked for takes a player off. -/
theorem HostCall.idle (hcall : HostCall host mine s s')
    (hs : Shows host mine least none none shown s) :
    Shows host mine least none none shown s' := by
  rcases hcall.shows hs with hs' | ⟨s₁, hs₁, rfl⟩
  · exact hs'
  · rw [after, unmountHost_idle hs₁]
    exact hs₁

theorem HostCall.rests (hcall : HostCall host mine s s') (hs : Rests host mine least s) :
    Rests host mine least s' := by
  obtain ⟨player, hs⟩ := hs
  rcases hcall.shows hs with hs' | ⟨s₁, hs₁, rfl⟩
  · exact ⟨player, hs'⟩
  · obtain ⟨s₂, hunmount, hs₂⟩ := unmountHost_shows hs₁
    rw [after, hunmount]
    exact ⟨none, hs₂⟩

end Asking

/-! ## Mounting -/

section Callbacks

variable [DecidableEq C] {react : React T C (W × List HostEvent)}

/-- What every call of a host keeps, callbacks keep. -/
theorem Minds.keeps {I : Stage T C (W × List HostEvent) → Prop} (hminds : Minds react host mine)
    (hcall : ∀ s s', HostCall host mine s s' → I s → I s') (c : C) (notice : Notice T) :
    Keeps I (react c notice) := by
  intro s hs
  have hcalls := hminds.calls c notice s
  generalize after (react c notice) s = s' at hcalls ⊢
  induction hcalls with
  | refl => exact hs
  | tail _ hlast ih => exact hcall _ _ hlast ih

theorem Minds.keeps_idle (hminds : Minds react host mine) (c : C) (notice : Notice T) :
    Keeps (Shows host mine least none none shown) (react c notice) :=
  hminds.keeps (fun _ _ hcall => hcall.idle) c notice

theorem goes_greet (hminds : Minds react host mine) (callback : Option C) :
    Goes (Shows host mine least none none shown) (tell react callback (.error none)) :=
  .tell (fun c s hs => ⟨(), _, ok_after (hminds.succeeds c s), hminds.keeps_idle c _ s hs⟩) _

theorem goes_runScripts (hminds : Minds react host mine) :
    Goes (Shows host mine least none none shown) (runScripts react key) :=
  .runScripts (fun hook _ => hminds.keeps_idle hook _) key

variable [TimeScalar T]

omit [DecidableEq C] in
theorem goes_start (group : String) :
    Goes (Shows host mine least player answer shown : Stage T C (W × List HostEvent) → Prop)
      (start group) :=
  .start (fun _ hs => hs.source) (fun _ _ hsource hs => ⟨hs.host, hsource, hs.mounted⟩)
    fun _ _ hs => ⟨hs.host, hs.source, hs.mounted⟩

omit [DecidableEq C] in
theorem keeps_openTimeline (group : String) (settings : ClockSettings T) :
    Keeps (Shows host mine least player answer shown : Stage T C (W × List HostEvent) → Prop)
      (openTimeline group settings) := by
  refine .bind .get fun s => ?_
  split
  · exact .pure _
  · split
    · exact .throw _
    · exact .bind (.change fun _ hs => ⟨hs.host, hs.source, hs.mounted⟩) fun _ => .pure _

/-- What a player does on its timeline once that is there. -/
def arrive (react : React T C W) (key : Nat) (p : Player T C) : Action T C W Unit := do
  updatePlayer key fun p => { p with mounted := true }
  subscribe p.group (.player key)
  tell react p.options.onError (.error none)
  runScripts react key
  if p.options.autoPlay then start p.group else pure ()

omit [DecidableEq C] in
theorem mount_eq {react : React T C W} {s : Stage T C W} {p : Player T C}
    (hp : s.players[key]? = some p) (hidle : p.mounted = false) :
    mount react key s =
      (do
        let _ ← openTimeline p.group {
          fps := p.composition.fps
          mode := p.options.clockMode
          loop := p.options.loop
          duration := p.duration }
        arrive react key p)
      (s.modifyPlayer key fun q => { q with ownsTimeline := (s.timeline? p.group).isNone }) := by
  refine (withPlayer_some hp _).trans ((congrFun (if_neg (by simp [hidle])) s).trans ?_)
  exact (bind_ok rfl _).trans (bind_ok rfl _)

/-- Where none of the players of a host is mounted, one comes to be. -/
theorem goes_arrive (hminds : Minds react host mine) (p : Player T C) :
    Goes (Shows host mine least none none (some key)) (arrive react key p) := by
  refine .bind (.change fun _ hs => hs.modifyPlayer fun _ _ => .inr rfl) fun _ => ?_
  refine .bind (.change fun _ hs => ⟨hs.host, hs.source, hs.mounted⟩) fun _ => ?_
  refine .bind (goes_greet hminds _) fun _ => .bind (goes_runScripts hminds) fun _ => ?_
  split
  · exact goes_start _
  · exact .pure ()

/-- Where none of its players is mounted, a host mounts one, or that fails and none is. -/
theorem mount_shows (hminds : Minds react host mine) (key : Nat)
    (hs : Shows host mine least none none none s) :
    (∃ s', mount react key s = .ok () s' ∧ Shows host mine least none none (some key) s') ∨
      ∃ fault s', mount react key s = .error fault s' ∧
        Shows host mine least none none none s' := by
  cases hp : s.players[key]? with
  | none => exact .inl ⟨s, withPlayer_none hp _, hs.idle⟩
  | some p =>
      cases hidle : p.mounted with
      | true => exact .inl ⟨s, (withPlayer_some hp _).trans (congrFun (if_pos hidle) s), hs.idle⟩
      | false =>
          rw [mount_eq hp hidle]
          have hs₁ : Shows host mine least none none none (s.modifyPlayer key fun q =>
              { q with ownsTimeline := (s.timeline? p.group).isNone }) :=
            hs.modifyPlayer fun _ => .inl
          generalize s.modifyPlayer key _ = s₁ at hs₁ ⊢
          generalize ({
            fps := p.composition.fps
            mode := p.options.clockMode
            loop := p.options.loop
            duration := p.duration } : ClockSettings T) = settings
          have hopen := keeps_openTimeline p.group settings s₁ hs₁
          unfold after at hopen
          cases hrun : openTimeline p.group settings s₁ with
          | error fault s₂ =>
              rw [hrun] at hopen
              exact .inr ⟨fault, s₂, bind_error hrun _, hopen⟩
          | ok opened s₂ =>
              rw [hrun] at hopen
              obtain ⟨_, s₃, harrive, hs₃⟩ := goes_arrive hminds p s₂ hopen.idle
              exact .inl ⟨s₃, (bind_ok hrun _).trans harrive, hs₃⟩

/-! ## Going on with a load -/

omit [DecidableEq C] [TimeScalar T] in
theorem appendPlayer_shows (hs : Shows host mine least player answer shown s) (p : Player T C)
    (hidle : p.mounted = false) : Shows host mine least player answer shown (s.appendPlayer p) where
  host := hs.host
  source := hs.source
  mounted key hmine hmounted := by
    obtain ⟨q, hq, hq'⟩ := hmounted
    unfold appendPlayer at hq
    rcases Nat.lt_or_ge key s.players.length with hlt | hge
    · rw [List.getElem?_append_left hlt] at hq
      exact hs.mounted key hmine ⟨q, hq, hq'⟩
    · rw [List.getElem?_append_right hge] at hq
      obtain rfl := List.mem_singleton.mp (List.mem_of_getElem? hq)
      rw [hidle] at hq'
      cases hq'

omit [DecidableEq C] [TimeScalar T] in
/-- A player that is made is not mounted. -/
theorem goes_addPlayer (composition : Composition T) (options : PlayerOptions C) :
    Goes (Shows host mine least player answer shown : Stage T C (W × List HostEvent) → Prop)
      (addPlayer composition options) := by
  refine .get_bind fun s hs => ?_
  cases options.syncGroup.filter fun group => !group.isEmpty with
  | some group => exact ⟨_, _, rfl, appendPlayer_shows hs { composition, options, group } rfl⟩
  | none =>
      have hs' := appendPlayer_shows hs
        { composition, options, group := privateGroup s.nonce } rfl
      exact ⟨_, _, rfl, hs'.host, hs'.source, hs'.mounted⟩

omit [TimeScalar T] in
/-- Reporting to a host leaves it at rest. -/
theorem keeps_report (hminds : Minds react host mine) (h : Host C) (message : String) :
    Keeps (Rests host mine least) (report react h message) :=
  .tell (fun c => hminds.keeps (fun _ _ hcall => hcall.rests) c _) _

/-- How a load ends that has gone on: it shows the player that it gives, or it gives none. -/
def Ends (host : Nat) (mine : Nat → Prop) (least : Nat) :
    EStateM.Result (StageFault T) (Stage T C (W × List HostEvent)) LoadResult → Prop
  | .ok (.mounted key) s => Shows host mine least (some key) none (some key) s
  | .ok .nothing s => Rests host mine least s
  | .ok .cancelled s => Rests host mine least s
  | .error _ s => Rests host mine least s

omit [TimeScalar T] in
theorem ends_report (hminds : Minds react host mine) (h : Host C) (message : String)
    (hs : Rests host mine least s) :
    Ends host mine least
      ((do report react h message; return LoadResult.nothing) s) := by
  have hkept := keeps_report hminds h message s hs
  unfold after at hkept
  cases hrun : report react h message s with
  | ok _ s' =>
      rw [hrun] at hkept
      rw [bind_ok hrun]
      exact hkept
  | error fault s' =>
      rw [hrun] at hkept
      rw [bind_error hrun]
      exact hkept

/-- What is done with a composition that was read. -/
def showing (react : React T C W) (host : Nat) (h : Host C) (composition : Composition T) :
    Action T C W LoadResult := do
  unmountHost host
  let key ← addPlayer composition h.options
  mount react key
  modify fun s => s.modifyHost host fun h => { h with player := some key }
  return .mounted key

/-- The player that was shown goes, and another comes unless something is wrong with the text. -/
theorem ends_display (hminds : Minds react host mine) (h : Host C) (text : String)
    (hs : Shows host mine least player none player s) :
    Ends host mine least (display react host h text s) := by
  obtain ⟨s₁, hunmount, hs₁⟩ := unmountHost_shows hs
  unfold display
  rw [bind_ok hunmount]
  cases (Composition.ofText text : Except CompositionFault (Composition T)) with
  | error fault =>
      dsimp only
      split
      · exact ends_report hminds h _ ⟨none, hs₁⟩
      · exact ⟨none, hs₁⟩
  | ok composition =>
      obtain ⟨key, s₂, hadd, hs₂⟩ := goes_addPlayer composition h.options s₁ hs₁
      dsimp only
      rw [bind_ok hadd]
      rcases mount_shows hminds key hs₂ with ⟨s₃, hmount, hs₃⟩ | ⟨fault, s₃, hmount, hs₃⟩
      · rw [bind_ok hmount]
        exact hs₃.modifyHost fun _ _ _ hleast hagrees => ⟨rfl, hleast, hagrees⟩
      · rw [bind_error hmount]
        exact ⟨none, hs₃⟩

/-- A load goes on that has not gone on before. -/
theorem ends_resumeLoad (hminds : Minds react host mine) {load : Nat}
    (hs : Rests host mine least s) (honce : ∀ result, .resumed load result ∉ s.history) :
    Ends host mine least (resumeLoad react host load s) := by
  obtain ⟨player, hs⟩ := hs
  obtain ⟨h, hhost, hplayer, hleast, hagrees⟩ := hs.host
  unfold resumeLoad
  rw [get_bind, hhost]
  dsimp only
  cases hcontinue : h.loads.continuation load with
  | waiting => exact ⟨player, hs⟩
  | superseded => exact ⟨player, hs⟩
  | cancelled => exact ⟨player, hs⟩
  | broken fault => exact ⟨player, hs⟩
  | report message => exact ends_report hminds h message ⟨player, hs⟩
  | display text =>
      have hcurrent := Loads.current_of_display hcontinue
      have hasked : Shows host mine least player none player s :=
        ⟨⟨h, hhost, hplayer, hleast, hagrees.asked hcurrent honce⟩, hs.source, hs.mounted⟩
      exact ends_display hminds h text hasked

omit [DecidableEq C] [TimeScalar T] in
/-- How a load ended is noted; the player that it gave is the one that answers now. -/
theorem resumed_shows {load : Nat} {result : Option LoadResult}
    (hs : Shows host mine (load + 1) player answer shown s)
    (hresult : ∀ key, result = some (.mounted key) → answer = some key) :
    Shows host mine 0 player answer shown (s.recorded (.resumed load result)) := by
  obtain ⟨h, hhost, hplayer, hleast, hagrees⟩ := hs.host
  exact ⟨⟨h, hhost, hplayer, Nat.zero_le _, hagrees.afterResume hleast hresult⟩, hs.source,
    hs.mounted⟩

theorem rests_resume (hminds : Minds react host mine) {h : Host C} {load : Nat}
    (hs : Rests host mine 0 s) (hhost : s.hosts[host]? = some h)
    (hended : h.loads.continuation load ≠ .waiting)
    (honce : ∀ result, .resumed load result ∉ s.history) :
    Rests host mine 0 (after (resume react host load) s) := by
  have hbegun : Rests host mine (load + 1) s := by
    obtain ⟨player, hs⟩ := hs
    obtain ⟨h', hhost', hplayer, -, hagrees⟩ := hs.host
    obtain rfl := Option.some.inj (hhost.symm.trans hhost')
    exact ⟨player, ⟨h, hhost, hplayer, Loads.begun_of_continuation hended, hagrees⟩, hs.source,
      hs.mounted⟩
  have hends := ends_resumeLoad hminds hbegun honce
  unfold after resume
  cases hrun : resumeLoad react host load s with
  | error fault s' =>
      rw [hrun] at hends
      obtain ⟨player, hs'⟩ := hends
      exact ⟨player, resumed_shows hs' nofun⟩
  | ok result s' =>
      rw [hrun] at hends
      cases result with
      | nothing =>
          obtain ⟨player, hs'⟩ := hends
          exact ⟨player, resumed_shows hs' nofun⟩
      | cancelled =>
          obtain ⟨player, hs'⟩ := hends
          exact ⟨player, resumed_shows hs' nofun⟩
      | mounted key =>
          obtain ⟨h, hhost, hplayer, hleast, hagrees⟩ := hends.host
          have hs' : Shows host mine (load + 1) (some key) (some key) (some key) s' :=
            ⟨⟨h, hhost, hplayer, hleast, hagrees.unanswered⟩, hends.source, hends.mounted⟩
          refine ⟨some key, resumed_shows hs' fun key' hkey => ?_⟩
          cases hkey
          rfl

/-- What a run keeps. -/
theorem Hosting.rests (hminds : Minds react host mine) {s₀ : Stage T C (W × List HostEvent)}
    (hrun : Hosting react host mine s₀ s) (hs : Rests host mine 0 s₀) : Rests host mine 0 s := by
  induction hrun with
  | refl => exact hs
  | call _ hcall ih => exact hcall.rests ih
  | resume _ _ hhost hended honce ih => exact rests_resume hminds ih hhost hended honce

end Callbacks

/-! ## A host that is closed at bad news -/

/-- A composition of one scene. -/
def oneScene : String := Document.enclosing "scene" [("id", "v")] [("id", "s")]

/-- What is told to go wrong closes the host. -/
def closing : React Rat Unit (Unit × List HostEvent) := fun _ notice =>
  match notice with
  | .error (some _) => do record .closed; closeHost 0
  | _ => pure ()

/-- The host has been closed since its first load failed. Its second load had its text when the
third began, and ended without a result. -/
def replaced : Stage Rat Unit (Unit × List HostEvent) where
  source := .manual 0 {}
  hosts := [{
    options := { onError := some () }
    loads := {
      states := [.done (.failed "gone"), .done (.text oneScene), .done (.text oneScene)]
      current := some 2 } }]
  outside := ((), [.resumed 1 (some .nothing), .loaded 2, .loaded 1, .resumed 0 (some .nothing),
    .closed, .loaded 0])

end Cuesheet.Stage
