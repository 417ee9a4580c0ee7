import Cuesheet.Proofs.Stage.Courses
import Cuesheet.Proofs.Stage.Hosting
import Cuesheet.Proofs.Stage.Telling

/-!
# Who has a seat

A player that is mounted has a ticket: it subscribes, once, to the timeline of its group, and a
player that is not has none (`Seated`). Mounting and unmounting keep it so, and so does every tick.
A tick however tells those who had tickets when it began. So a player that is unmounted between
ticks is told no more, and one that is told although it is not mounted was taken off while the tick
was told to others (`told_seated_iff`).
-/

namespace Cuesheet.Stage

variable {T C W : Type} {react : React T C W} {group : String} {key : Nat} {s s' : Stage T C W}
  {I : Stage T C W → Prop}

/-! ## What has nothing to do with the course of clocks -/

/-- It depends neither on requests, nor on anything of a clock but who subscribes. -/
structure Clockless (I : Stage T C W → Prop) : Prop where
  source : ∀ s source, I s → I { s with source }
  clock : ∀ (s : Stage T C W) group (f : Timeline T (Subscriber C) → Timeline T (Subscriber C)),
    (∀ tl, tl.id = group → (f tl).id = group) →
      (∀ tl, s.timeline? group = some tl → (f tl).subscribers = tl.subscribers) →
        I s → I (s.modifyTimeline group f)

namespace Clockless

theorem steady (h : Clockless I) : Steady I where
  source := h.source
  clock s group f hid hsubs _ := h.clock s group f hid hsubs

theorem stop (h : Clockless I) (group : String) : Keeps I (Stage.stop group) :=
  (h.steady.calm.stop group).keeps

variable [TimeScalar T]

theorem start (h : Clockless I) (group : String) : Keeps I (Stage.start group) :=
  h.steady.calm.start group

/-- What is kept by whoever is told the time is kept by a tick. -/
theorem tick (h : Clockless I) (hreact : Sheltered react I) (group : String) (now : T) :
    Keeps I (Stage.tick (hear react) group now) :=
  h.steady.tick hreact.hear group now

end Clockless

/-! ## Seats -/

variable [DecidableEq C]

/-- How often a player subscribes to the timeline of a group. -/
def tickets (s : Stage T C W) (group : String) (key : Nat) : Nat :=
  ((s.subscribers? group).getD []).count (.player key)

omit [DecidableEq C] in
/-- Whether a player is mounted, and the group on whose timeline it plays. -/
def seat? (s : Stage T C W) (key : Nat) : Option (Bool × String) :=
  (s.players[key]?).map fun p => (p.mounted, p.group)

/-- A player subscribes once at most, and only to the timeline of its group while it is mounted. -/
def Seated (s : Stage T C W) : Prop :=
  ∀ group key, s.tickets group key ≤ 1 ∧
    (0 < s.tickets group key → s.seat? key = some (true, group))

/-- Players have the tickets and the seats that they had. -/
structure SameSeats (s s' : Stage T C W) : Prop where
  tickets : ∀ group key, s'.tickets group key = s.tickets group key
  seat : ∀ key, s'.seat? key = s.seat? key

theorem Seated.of_same (h : s.Seated) (hsame : SameSeats s s') : s'.Seated := by
  intro group key
  rw [hsame.tickets, hsame.seat]
  exact h group key

/-- Who is not mounted has no ticket. -/
theorem Seated.tickets_eq_zero (h : s.Seated) {other : String}
    (hseat : s.seat? key ≠ some (true, other)) : s.tickets other key = 0 :=
  Nat.eq_zero_of_not_pos fun hpos => hseat ((h other key).2 hpos)

omit [DecidableEq C] in
theorem seat?_of_players {p : Player T C} (h : s.players[key]? = some p) :
    s.seat? key = some (p.mounted, p.group) := by
  rw [seat?, h]
  rfl

omit [DecidableEq C] in
theorem mounted_of_seat (h : s.seat? key = some (true, group)) : Mounted key s := by
  obtain ⟨p, hp, heq⟩ := Option.map_eq_some_iff.mp h
  exact ⟨p, hp, (Prod.mk.inj heq).1⟩

omit [DecidableEq C] in
theorem seat?_modifyPlayer (s : Stage T C W) (key other : Nat) (f : Player T C → Player T C) :
    (s.modifyPlayer key f).seat? other =
      if other = key then (s.players[key]?).map fun p => ((f p).mounted, (f p).group)
      else s.seat? other := by
  unfold seat? modifyPlayer
  rw [List.getElem?_modify]
  split
  · rename_i heq
    subst heq
    rw [if_pos rfl]
    cases s.players[key]? <;> rfl
  · rename_i hne
    rw [if_neg (Ne.symm hne)]
    simp

theorem tickets_of_subscribers {other : String}
    (h : s'.subscribers? other = s.subscribers? other) (key : Nat) :
    s'.tickets other key = s.tickets other key := by
  rw [tickets, h]
  rfl

/-- The tickets for a timeline whose subscribers are others now are counted anew. -/
theorem tickets_modifySubscribers (s : Stage T C W) (group : String)
    (f : List (Subscriber C) → List (Subscriber C)) (other : String) (key : Nat) :
    (s.modifyTimeline group fun tl =>
        { tl with subscribers := f tl.subscribers }).tickets other key =
      if other = group then
        ((s.subscribers? group).map fun subs => (f subs).count (.player key)).getD 0
      else s.tickets other key := by
  unfold tickets subscribers?
  rw [timeline?_modifyTimeline s (f := fun tl => { tl with subscribers := f tl.subscribers })
    fun _ hid => hid]
  split
  · rename_i hother
    subst hother
    cases s.timeline? other <;> rfl
  · rfl

/-- A player that remembers something else keeps its seat. -/
theorem SameSeats.modifyPlayer (s : Stage T C W) (key : Nat) {f : Player T C → Player T C}
    (hf : ∀ p, (f p).mounted = p.mounted ∧ (f p).group = p.group) :
    SameSeats s (s.modifyPlayer key f) := by
  refine ⟨fun _ _ => rfl, fun other => ?_⟩
  rw [seat?_modifyPlayer]
  split
  · rename_i heq
    subst heq
    unfold seat?
    congr 1
    funext p
    rw [(hf p).1, (hf p).2]
  · rfl

theorem SameSeats.modifyTimeline {f : Timeline T (Subscriber C) → Timeline T (Subscriber C)}
    (hid : ∀ tl, tl.id = group → (f tl).id = group)
    (hsubs : ∀ tl, s.timeline? group = some tl → (f tl).subscribers = tl.subscribers) :
    SameSeats s (s.modifyTimeline group f) :=
  ⟨fun _ key => tickets_of_subscribers (map_modifyTimeline s hid hsubs _) key, fun _ => rfl⟩

/-- Callbacks subscribe without taking a seat. -/
theorem SameSeats.subscribe [TimeScalar T] (s : Stage T C W) (group : String) (c : C) :
    SameSeats s (after (Stage.subscribe group (.call c)) s) := by
  refine ⟨fun other key => ?_, fun _ => rfl⟩
  refine (tickets_modifySubscribers s group (· ++ [.call c]) other key).trans ?_
  split
  · rename_i hother
    subst hother
    unfold Stage.tickets
    cases s.subscribers? other with
    | none => rfl
    | some subs => simp [List.count_append]
  · rfl

/-- What depends on tickets and seats alone does not depend on the course of clocks. -/
theorem clockless_of_same (h : ∀ s s', SameSeats s s' → I s → I s') : Clockless I where
  source s _ hs := h s _ ⟨fun _ _ => rfl, fun _ => rfl⟩ hs
  clock s _ _ hid hsubs hs := h s _ (.modifyTimeline hid hsubs) hs

theorem seated_clockless : Clockless (Seated : Stage T C W → Prop) :=
  clockless_of_same fun _ _ hsame hs => hs.of_same hsame

/-! ## Mounting and unmounting -/

/-- Callbacks leave players with the tickets that go with their seats, whatever else they do. They
may fail. -/
def Ushers (react : React T C W) : Prop := ∀ c notice, Keeps Seated (react c notice)

theorem Ushers.sheltered (h : Ushers react) : Sheltered react Seated where
  called := h
  remembered key _ hf s hs := hs.of_same (.modifyPlayer s key hf)

/-- Besides, a player plays on a timeline to which it does not subscribe. -/
def Standby (key : Nat) (seat : Bool × String) (s : Stage T C W) : Prop :=
  s.Seated ∧ s.seat? key = some seat ∧ ∀ group, s.tickets group key = 0

theorem Standby.of_same {seat : Bool × String} (h : Standby key seat s) (hsame : SameSeats s s') :
    Standby key seat s' := by
  refine ⟨h.1.of_same hsame, (hsame.seat key).trans h.2.1, fun group => ?_⟩
  rw [hsame.tickets]
  exact h.2.2 group

/-- A player that stands by may be mounted or not. -/
theorem Standby.modifyPlayer {seat seat' : Bool × String} (h : Standby key seat s)
    {f : Player T C → Player T C}
    (hf : ∀ p, (p.mounted, p.group) = seat → ((f p).mounted, (f p).group) = seat') :
    Standby key seat' (s.modifyPlayer key f) := by
  obtain ⟨hseated, hseat, hnone⟩ := h
  have hown : (s.modifyPlayer key f).seat? key = some seat' := by
    obtain ⟨p, hp, heq⟩ := Option.map_eq_some_iff.mp hseat
    rw [seat?_modifyPlayer, if_pos rfl, hp, Option.map_some, hf p heq]
  refine ⟨fun group other => ?_, hown, hnone⟩
  refine ⟨(hseated group other).1, fun hpos => ?_⟩
  have hne : other ≠ key := by
    rintro rfl
    exact absurd (hnone group) (Nat.ne_of_gt hpos)
  rw [seat?_modifyPlayer, if_neg hne]
  exact (hseated group other).2 hpos

theorem tickets_subscribed (s : Stage T C W) (group : String) (key : Nat) (other : String)
    (other' : Nat) :
    (s.modifyTimeline group fun tl =>
        { tl with subscribers := tl.subscribers ++ [.player key] }).tickets other other' ≤
      s.tickets other other' + if other = group ∧ other' = key then 1 else 0 := by
  rw [tickets_modifySubscribers s group (· ++ [Subscriber.player key])]
  by_cases hother : other = group
  · subst hother
    rw [if_pos rfl]
    unfold tickets
    cases s.subscribers? other with
    | none => simp
    | some subs =>
        by_cases hkey : other' = key
        · simp [List.count_append, hkey]
        · have hne : (Subscriber.player key : Subscriber C) ≠ .player other' := by
            rintro ⟨⟩
            exact hkey rfl
          simp [List.count_append, hkey, hne]
  · simp [hother]

theorem tickets_unsubscribed (s : Stage T C W) (group : String) (key : Nat) (other : String)
    (other' : Nat) :
    (s.modifyTimeline group fun tl =>
        { tl with subscribers := tl.subscribers.erase (.player key) }).tickets other other' =
      s.tickets other other' - if other = group ∧ other' = key then 1 else 0 := by
  rw [tickets_modifySubscribers s group (·.erase (.player key))]
  by_cases hother : other = group
  · subst hother
    rw [if_pos rfl]
    unfold tickets
    cases s.subscribers? other with
    | none => simp
    | some subs =>
        have hsame : (Subscriber.player key : Subscriber C) == .player other' ↔ other' = key := by
          rw [beq_iff_eq, Subscriber.player.injEq]
          exact eq_comm
        simp [List.count_erase, hsame]
  · simp [hother]

/-- A player that takes its seat subscribes. -/
theorem Standby.subscribe [TimeScalar T] :
    Leads (Standby key (true, group)) (Seated : Stage T C W → Prop)
      (Stage.subscribe group (.player key)) := by
  rintro s ⟨hseated, hseat, hnone⟩ other other'
  have hbound := tickets_subscribed s group key other other'
  by_cases hown : other = group ∧ other' = key
  · obtain ⟨rfl, rfl⟩ := hown
    rw [hnone, if_pos ⟨rfl, rfl⟩] at hbound
    exact ⟨hbound, fun _ => hseat⟩
  · rw [if_neg hown, Nat.add_zero] at hbound
    obtain ⟨hone, hticket⟩ := hseated other other'
    exact ⟨hbound.trans hone, fun hpos => hticket (hpos.trans_le hbound)⟩

/-- A player that gives its ticket up stands by. -/
theorem Seated.unsubscribe [TimeScalar T] {p : Player T C} (h : s.Seated)
    (hp : s.players[key]? = some p) (hmounted : p.mounted = true) :
    Standby key (true, p.group) (after (Stage.unsubscribe p.group (.player key)) s) := by
  have hseat : s.seat? key = some (true, p.group) := by rw [seat?_of_players hp, hmounted]
  have hafter (other : String) (other' : Nat) :
      (after (Stage.unsubscribe p.group (.player key)) s).tickets other other' =
        s.tickets other other' - if other = p.group ∧ other' = key then 1 else 0 :=
    tickets_unsubscribed s p.group key other other'
  refine ⟨fun other other' => ?_, hseat, fun other => ?_⟩
  · obtain ⟨hone, hticket⟩ := h other other'
    rw [hafter]
    exact ⟨by omega, fun hpos => hticket (by omega)⟩
  · obtain ⟨hone, hticket⟩ := h other key
    rw [hafter]
    by_cases hother : other = p.group
    · rw [if_pos ⟨hother, rfl⟩]
      omega
    · rw [if_neg fun hboth => hother hboth.1]
      refine h.tickets_eq_zero ?_
      rw [hseat]
      rintro ⟨⟩
      exact hother rfl

variable [TimeScalar T]

theorem SameSeats.openTimeline (s : Stage T C W) (group : String) (settings : ClockSettings T) :
    SameSeats s (after (Stage.openTimeline group settings) s) := by
  refine Keeps.openTimeline settings (fun s' tl hnone hcreate hs => ?_) s
    ⟨fun _ _ => rfl, fun _ => rfl⟩
  refine ⟨fun other key => ?_, hs.seat⟩
  have hnew : tl.subscribers = [] := (of_create hcreate).2.1
  rw [← hs.tickets]
  unfold Stage.tickets subscribers?
  rw [timeline?_append]
  cases s'.timeline? other with
  | some tl' => rfl
  | none =>
      rw [Option.none_or]
      split
      · rw [Option.map_some, hnew]
        rfl
      · rfl

/-- A player arrives on its timeline. -/
theorem Ushers.arrive (h : Ushers react) (p : Player T C) :
    Leads (Standby key (false, p.group)) Seated (Stage.arrive react key p) := by
  have hmounted : Leads (Standby key (false, p.group)) (Standby key (true, p.group))
      (updatePlayer key fun p => { p with mounted := true } : Action T C W Unit) := by
    refine fun s hs => hs.modifyPlayer fun q hq => ?_
    rw [(Prod.mk.inj hq).2]
  refine hmounted.bind (fun _ => ?_) fun _ hs => hs.1
  refine Standby.subscribe.bind (fun _ => ?_) fun _ hs => hs
  refine Keeps.bind (.tell (fun c => h c _) _) fun _ => .bind ?_ fun _ => ?_
  · exact (Goes.runScripts (fun hook _ => h hook _) key).keeps
  · split
    · exact seated_clockless.start _
    · exact .pure ()

theorem Ushers.mount (h : Ushers react) (key : Nat) : Keeps Seated (Stage.mount react key) := by
  intro s hs
  cases hp : s.players[key]? with
  | none =>
      rw [after, Stage.mount, withPlayer_none hp]
      exact hs
  | some p =>
      cases hidle : p.mounted with
      | true =>
          rw [after, Stage.mount, withPlayer_some hp, hidle]
          exact hs
      | false =>
          have hseat : s.seat? key = some (false, p.group) := by
            rw [seat?_of_players hp, hidle]
          have hstandby : Standby key (false, p.group) s := by
            refine ⟨hs, hseat, fun other => hs.tickets_eq_zero ?_⟩
            rw [hseat]
            rintro ⟨⟩
          rw [after, mount_eq hp hidle]
          refine Leads.bind (I := Standby key (false, p.group)) (J := Standby key (false, p.group))
            (fun s hs => hs.of_same (.openTimeline s _ _)) (fun _ => h.arrive p)
            (fun _ hs => hs.1) _ ?_
          exact hstandby.of_same (.modifyPlayer s key fun _ => ⟨rfl, rfl⟩)

theorem keeps_unmount (key : Nat) : Keeps (Seated : Stage T C W → Prop) (Stage.unmount key) := by
  intro s hs
  cases hp : s.players[key]? with
  | none =>
      rw [after, Stage.unmount, withPlayer_none hp]
      exact hs
  | some p =>
      rw [after, Stage.unmount, withPlayer_some hp]
      cases hmounted : p.mounted with
      | false => exact hs
      | true =>
          have hclockless : Clockless (Standby key (true, p.group) : Stage T C W → Prop) :=
            clockless_of_same fun _ _ hsame hs => hs.of_same hsame
          have hleave : Leads (Standby key (true, p.group)) (Seated : Stage T C W → Prop)
              (updatePlayer key fun p => { p with mounted := false }) := by
            intro s hs
            have hleft : Standby key (false, p.group)
                (s.modifyPlayer key fun p => { p with mounted := false }) :=
              hs.modifyPlayer fun q hq => by rw [(Prod.mk.inj hq).2]
            exact hleft.1
          refine Leads.bind (I := fun s' => s' = s) (J := Standby key (true, p.group))
            (fun s' hs' => hs' ▸ hs.unsubscribe hp hmounted) (fun _ => ?_) (fun _ hs => hs.1) s rfl
          refine Leads.bind (J := Standby key (true, p.group)) Keeps.get (fun s => ?_)
            fun _ hs => hs.1
          dsimp only
          split
          · split
            · exact Leads.bind (hclockless.stop _) (fun _ => hleave) fun _ hs => hs.1
            · exact hleave
          · exact hleave

/-! ## Who is told without being mounted -/

/-- Players are mounted and unmounted, timelines tick and callbacks are called, in any order, and
anything else may happen that leaves tickets and seats alone. -/
inductive ComesAndGoes (react : React T C W) (s : Stage T C W) : Stage T C W → Prop
  | start : ComesAndGoes react s s
  | mount {s₁ : Stage T C W} (run : ComesAndGoes react s s₁) (key : Nat) :
      ComesAndGoes react s (after (Stage.mount react key) s₁)
  | unmount {s₁ : Stage T C W} (run : ComesAndGoes react s s₁) (key : Nat) :
      ComesAndGoes react s (after (Stage.unmount key) s₁)
  | tick {s₁ : Stage T C W} (run : ComesAndGoes react s s₁) (group : String) (now : T) :
      ComesAndGoes react s (after (Stage.tick (hear react) group now) s₁)
  | call {s₁ : Stage T C W} (run : ComesAndGoes react s s₁) (c : C) (notice : Notice T) :
      ComesAndGoes react s (after (react c notice) s₁)
  | aside {s₁ s₂ : Stage T C W} (run : ComesAndGoes react s s₁) (same : SameSeats s₁ s₂) :
      ComesAndGoes react s s₂

theorem ComesAndGoes.seated (h : ComesAndGoes react s s') (hreact : Ushers react) (hs : s.Seated) :
    s'.Seated := by
  induction h with
  | start => exact hs
  | mount _ key ih => exact hreact.mount key _ ih
  | unmount _ key ih => exact keeps_unmount key _ ih
  | tick _ group now ih => exact seated_clockless.tick hreact.sheltered group now _ ih
  | call _ c notice ih => exact hreact c notice _ ih
  | aside _ same ih => exact ih.of_same same

/-- A player is told the time only while it is mounted. -/
def OnlyMounted (key : Nat) (tellings : List (Telling T C W)) : Prop :=
  ∀ t ∈ tellings, t.subscriber = .player key → Mounted key t.stage

/-- Somebody who is told the time takes off a player that is told later, and nobody has mounted it
again by then. -/
def TakenOff (key : Nat) (tellings : List (Telling T C W)) : Prop :=
  ∃ before t between t' later, tellings = before ++ t :: (between ++ t' :: later) ∧
    Mounted key t.stage ∧ (∀ other ∈ between, ¬ Mounted key other.stage) ∧
      t'.subscriber = .player key ∧ ¬ Mounted key t'.stage

/-- The last of a list that has a property. -/
theorem exists_last {α : Type} {P : α → Prop} {l : List α} (h : ∃ a ∈ l, P a) :
    ∃ before a later, l = before ++ a :: later ∧ P a ∧ ∀ b ∈ later, ¬ P b := by
  induction l with
  | nil =>
      obtain ⟨a, ha, -⟩ := h
      cases ha
  | cons first rest ih =>
      by_cases hrest : ∃ a ∈ rest, P a
      · obtain ⟨before, a, later, rfl, ha, hlater⟩ := ih hrest
        exact ⟨first :: before, a, later, rfl, ha, hlater⟩
      · obtain ⟨a, ha, hP⟩ := h
        rcases List.mem_cons.mp ha with rfl | ha
        · exact ⟨[], a, rest, rfl, hP, fun b hb hPb => hrest ⟨b, hb, hPb⟩⟩
        · exact absurd ⟨a, ha, hP⟩ hrest

omit [DecidableEq C] in
/-- The first who is told is told before anything else happens. -/
theorem hearers_head {time : T} {subscribers : List (Subscriber C)} {t : Telling T C W}
    (h : (hearers react group time subscribers s).head? = some t) : t.stage = s := by
  cases subscribers with
  | nil => cases h
  | cons subscriber rest =>
      cases h
      rfl

/-- Whoever has a ticket when a tick begins is mounted by then. -/
theorem Seated.tellings (h : s.Seated) {now : T} {t : Telling T C W}
    (ht : t ∈ tellings react now (.tick group) s) (hplayer : t.subscriber = .player key) :
    Mounted key s ∧ ∃ first, (Stage.tellings react now (.tick group) s).head? = some first ∧
      first.stage.players = s.players := by
  rcases tellings_cases react now (.tick group) s with hnil | ⟨_, tl, frame, heq, htl, htold⟩
  · rw [hnil] at ht
    cases ht
  · cases heq
    rw [htold] at ht ⊢
    have hmem : Subscriber.player key ∈ tl.subscribers := by
      rw [← hplayer]
      exact (hearers_spec _ _ _).1.subset (List.mem_map_of_mem ht)
    have hticket : 0 < s.tickets group key := by
      unfold Stage.tickets subscribers?
      rw [htl]
      exact List.count_pos_iff.mpr hmem
    refine ⟨mounted_of_seat ((h group key).2 hticket), ?_⟩
    cases hhead : (hearers react group (tl.moved now).time tl.subscribers
        (s.moving group tl now frame)).head? with
    | none =>
        rw [List.head?_eq_none_iff.mp hhead] at ht
        cases ht
    | some first => exact ⟨first, rfl, by rw [hearers_head hhead]; rfl⟩

/-- A timeline tells no player that was unmounted before the tick began. It tells none at all that
is not mounted if and only if nobody who is told takes one off that is yet to be told. -/
theorem told_seated_iff (hreact : Ushers react) (hs : s.Seated) (hrun : ComesAndGoes react s s')
    (group : String) (now : T) (key : Nat) :
    (¬ Mounted key s' →
        ∀ t ∈ tellings react now (.tick group) s', t.subscriber ≠ .player key) ∧
      (OnlyMounted key (tellings react now (.tick group) s') ↔
        ¬ TakenOff key (tellings react now (.tick group) s')) := by
  have hseated := hrun.seated hreact hs
  refine ⟨fun hout t ht hplayer => hout (hseated.tellings ht hplayer).1, fun honly => ?_,
    fun hkept t ht hplayer => ?_⟩
  · rintro ⟨before, t, between, t', later, htold, -, -, hplayer, hout⟩
    refine hout (honly t' ?_ hplayer)
    rw [htold]
    simp
  · by_contra hout
    obtain ⟨hmounted, first, hfirst, hplayers⟩ := hseated.tellings ht hplayer
    obtain ⟨told, later, htold⟩ := List.append_of_mem ht
    have hbefore : ∃ t' ∈ told, Mounted key t'.stage := by
      have hstage : Mounted key first.stage := by
        unfold Mounted
        rw [hplayers]
        exact hmounted
      cases told with
      | nil =>
          rw [htold] at hfirst
          obtain rfl := Option.some.inj hfirst
          exact absurd hstage hout
      | cons t' rest =>
          rw [htold] at hfirst
          obtain rfl := Option.some.inj hfirst
          exact ⟨t', List.mem_cons_self, hstage⟩
    obtain ⟨before, t', between, rfl, ht', hbetween⟩ := exists_last hbefore
    refine hkept ⟨before, t', between, t, later, ?_, ht', hbetween, hplayer, hout⟩
    rw [htold, List.append_assoc]
    rfl

/-! ## A player that is taken off -/

/-- Callbacks that unmount the first player when they are told the time. -/
def dropping : React Rat Unit Unit := fun _ notice =>
  match notice with
  | .tick _ => unmount 0
  | _ => pure ()

theorem dropping_ushers : Ushers dropping := by
  intro c notice
  cases notice with
  | tick time => exact keeps_unmount 0
  | _ => exact .pure ()

/-- A timeline that tells some callbacks, and a player of its group that is not mounted. -/
def lobby (callbacks : List (Subscriber Unit)) : Stage Rat Unit Unit where
  source := .manual 0 {}
  timelines := [{
    id := "g"
    fps := .int 30
    mode := .live
    loop := false
    duration := none
    subscribers := callbacks
    time := 0 }]
  players := [{ composition := film [take "a" 0 2 []], options := {}, group := "g" }]
  outside := ()

theorem lobby_seated {callbacks : List (Subscriber Unit)}
    (h : ∀ key, callbacks.count (.player key) = 0) : (lobby callbacks).Seated := by
  intro group key
  have hnone : (lobby callbacks).tickets group key = 0 := by
    by_cases hgroup : "g" = group
    · subst hgroup
      exact h key
    · have habsent : (lobby callbacks).timeline? group = none := by
        simp [lobby, timeline?, hgroup]
      unfold tickets subscribers?
      rw [habsent]
      rfl
  rw [hnone]
  exact ⟨Nat.zero_le _, fun hpos => absurd hpos (Nat.lt_irrefl 0)⟩

/-- A player that is told first is told while it is mounted. -/
theorem lobby_first :
    let s := after (subscribe "g" (.call ())) (after (mount dropping 0) (lobby []))
    (tellings dropping (0 : Rat) (.tick "g") s).map Telling.subscriber = [.player 0, .call ()] ∧
      OnlyMounted 0 (tellings dropping (0 : Rat) (.tick "g") s) := by
  have htold : (tellings dropping (0 : Rat) (.tick "g") (after (subscribe "g" (.call ()))
      (after (mount dropping 0) (lobby [])))).map Telling.subscriber = [.player 0, .call ()] := by
    decide +kernel
  have hrun : ComesAndGoes dropping (lobby []) (after (subscribe "g" (.call ()))
      (after (mount dropping 0) (lobby []))) :=
    .aside (.mount .start 0) (.subscribe _ "g" ())
  have hseated : (lobby []).Seated := lobby_seated fun _ => rfl
  refine ⟨htold, (told_seated_iff dropping_ushers hseated hrun "g" 0 0).2.mpr ?_⟩
  rintro ⟨before, t, between, t', later, hsplit, -, -, hplayer, -⟩
  rw [hsplit] at htold
  have hlast : t'.subscriber ∈ [Subscriber.player 0, Subscriber.call ()].tail := by
    rw [← htold]
    cases before <;> simp
  rw [hplayer] at hlast
  revert hlast
  decide

/-- If a callback before it takes it off, it is told all the same. -/
theorem lobby_dropped : Ushers dropping ∧ (lobby [.call ()]).Seated ∧
    ComesAndGoes dropping (lobby [.call ()]) (after (mount dropping 0) (lobby [.call ()])) ∧
      ¬ OnlyMounted 0 (tellings dropping (0 : Rat) (.tick "g")
        (after (mount dropping 0) (lobby [.call ()]))) := by
  refine ⟨dropping_ushers, lobby_seated fun _ => rfl, .mount .start 0, fun honly => ?_⟩
  have hout : ∃ t ∈ tellings dropping (0 : Rat) (.tick "g")
      (after (mount dropping 0) (lobby [.call ()])), t.subscriber = .player 0 ∧
        (t.stage.players[0]?).map Player.mounted = some false := by
    decide +kernel
  obtain ⟨t, ht, hplayer, hidle⟩ := hout
  obtain ⟨p, hp, hmounted⟩ := honly t ht hplayer
  rw [hp, Option.map_some, hmounted] at hidle
  cases hidle

end Cuesheet.Stage
