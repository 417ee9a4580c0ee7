import Cuesheet.Proofs.Stage.Seats

/-!
# Exactly one ticket each

A player that is mounted subscribes exactly once, to the timeline of its group, and one that is not
does not subscribe (`Booked`). So a tick that is told to all tells every mounted player once.
Mounting and unmounting keep it so if callbacks do (`Booked.mount`, `Booked.unmount`); in between
there is one player that is `Ticketless`, which does not subscribe whatever its seat is.
-/

namespace Cuesheet.Stage

variable {T C W : Type} [DecidableEq C] {react : React T C W} {group : String} {key : Nat}
  {seat seat' : Bool × String} {s s' : Stage T C W} {p : Player T C}

/-- A player has one ticket for the timeline of its group if it is mounted, and no other ticket. -/
def Booked (s : Stage T C W) : Prop :=
  ∀ group key, s.tickets group key = if s.seat? key = some (true, group) then 1 else 0

/-- One player has no ticket, whether or not it is mounted. All others have the tickets that go with
their seats. -/
structure Ticketless (key : Nat) (seat : Bool × String) (s : Stage T C W) : Prop where
  others : ∀ group other, other ≠ key →
    s.tickets group other = if s.seat? other = some (true, group) then 1 else 0
  seat : s.seat? key = some seat
  without : ∀ group, s.tickets group key = 0

theorem Booked.seated (h : s.Booked) : s.Seated := by
  intro group key
  rw [h]
  split
  · rename_i hseat
    exact ⟨le_refl 1, fun _ => hseat⟩
  · exact ⟨Nat.zero_le 1, fun hpos => absurd hpos (lt_irrefl 0)⟩

theorem Booked.of_same (h : s.Booked) (hsame : SameSeats s s') : s'.Booked := by
  intro group key
  rw [hsame.tickets, hsame.seat]
  exact h group key

theorem booked_clockless : Clockless (Booked : Stage T C W → Prop) :=
  clockless_of_same fun _ _ hsame hs => hs.of_same hsame

/-- A player that is not mounted is ticketless. -/
theorem Booked.ticketless (h : s.Booked) (hseat : s.seat? key = some (false, group)) :
    Ticketless key (false, group) s := by
  refine ⟨fun group other _ => h group other, hseat, fun other => ?_⟩
  rw [h, hseat, if_neg]
  rintro ⟨⟩

namespace Ticketless

variable (h : Ticketless key seat s)
include h

theorem booked (hidle : seat.1 = false) : s.Booked := by
  intro group other
  by_cases hother : other = key
  · subst hother
    rw [h.without, h.seat, if_neg]
    rintro ⟨⟩
    cases hidle
  · exact h.others group other hother

theorem of_same (hsame : SameSeats s s') : Ticketless key seat s' := by
  refine ⟨fun group other hother => ?_, (hsame.seat key).trans h.seat, fun group => ?_⟩
  · rw [hsame.tickets, hsame.seat]
    exact h.others group other hother
  · rw [hsame.tickets]
    exact h.without group

/-- A player that is ticketless may take a seat or leave it. -/
theorem modifyPlayer {f : Player T C → Player T C}
    (hf : ∀ p, (p.mounted, p.group) = seat → ((f p).mounted, (f p).group) = seat') :
    Ticketless key seat' (s.modifyPlayer key f) := by
  refine ⟨fun group other hother => ?_, ?_, h.without⟩
  · rw [seat?_modifyPlayer, if_neg hother]
    exact h.others group other hother
  · obtain ⟨p, hp, heq⟩ := Option.map_eq_some_iff.mp h.seat
    rw [seat?_modifyPlayer, if_pos rfl, hp, Option.map_some, hf p heq]

end Ticketless

/-! ## Tickets are taken and given up -/

omit [DecidableEq C] in
theorem subscribers?_of_timeline? {tl : Timeline T (Subscriber C)}
    (h : s.timeline? group = some tl) : s.subscribers? group = some tl.subscribers := by
  rw [subscribers?, h]
  rfl

/-- A player that takes its seat subscribes, on a timeline that is there. -/
theorem Ticketless.subscribe [TimeScalar T] (h : Ticketless key (true, group) s)
    (htl : (s.timeline? group).isSome = true) :
    (after (Stage.subscribe group (.player key)) s).Booked := by
  obtain ⟨tl, htl⟩ := Option.isSome_iff_exists.mp htl
  have hsubs := subscribers?_of_timeline? htl
  intro other other'
  have hseat : (after (Stage.subscribe group (.player key)) s).seat? other' = s.seat? other' := rfl
  have hcount : (after (Stage.subscribe group (.player key)) s).tickets other other' =
      s.tickets other other' + if other = group ∧ other' = key then 1 else 0 := by
    refine (tickets_modifySubscribers s group (· ++ [Subscriber.player key]) ..).trans ?_
    by_cases hother : other = group
    · subst hother
      have hsame : (Subscriber.player key : Subscriber C) = .player other' ↔ other' = key := by
        rw [Subscriber.player.injEq]
        exact eq_comm
      simp [tickets, hsubs, List.count_append, List.count_singleton, hsame]
    · simp [hother]
  rw [hcount, hseat]
  by_cases hkey : other' = key
  · subst hkey
    rw [h.without, h.seat]
    by_cases hother : other = group
    · simp [hother]
    · simp [hother, Ne.symm hother]
  · rw [if_neg fun hboth => hkey hboth.2]
    exact h.others other other' hkey

/-- A player that gives its ticket up is ticketless. -/
theorem Booked.unsubscribe [TimeScalar T] (h : s.Booked) (hp : s.players[key]? = some p)
    (hmounted : p.mounted = true) :
    Ticketless key (true, p.group) (after (Stage.unsubscribe p.group (.player key)) s) := by
  have hseat : s.seat? key = some (true, p.group) := by rw [seat?_of_players hp, hmounted]
  have hcount (other : String) (other' : Nat) :
      (after (Stage.unsubscribe p.group (.player key)) s).tickets other other' =
        s.tickets other other' - if other = p.group ∧ other' = key then 1 else 0 :=
    tickets_unsubscribed s p.group key other other'
  refine ⟨fun other other' hother => ?_, hseat, fun other => ?_⟩
  · rw [hcount, if_neg fun hboth => hother hboth.2]
    exact h other other'
  · rw [hcount, h, hseat]
    by_cases hother : other = p.group
    · simp [hother]
    · simp [hother, Ne.symm hother]

/-! ## Mounting and unmounting -/

variable [TimeScalar T]

/-- A player arrives on its timeline. -/
theorem Ticketless.arrive (hreact : ∀ c notice, Keeps Booked (react c notice))
    (h : Ticketless key (false, p.group) s) (htl : (s.timeline? p.group).isSome = true) :
    (after (Stage.arrive react key p) s).Booked := by
  have hseated : Ticketless key (true, p.group)
      (s.modifyPlayer key fun q => { q with mounted := true }) :=
    h.modifyPlayer fun q hq => by rw [(Prod.mk.inj hq).2]
  have hrest : Keeps (Booked : Stage T C W → Prop) (do
      tell react p.options.onError (.error none)
      runScripts react key
      if p.options.autoPlay then start p.group else pure ()) := by
    refine .bind (.tell (fun c => hreact c _) _) fun _ => .bind ?_ fun _ => ?_
    · exact (Goes.runScripts (fun hook _ => hreact hook _) key).keeps
    · split
      · exact booked_clockless.start _
      · exact .pure ()
  exact hrest _ (hseated.subscribe htl)

theorem Booked.mount (hreact : ∀ c notice, Keeps Booked (react c notice)) (key : Nat) :
    Keeps Booked (Stage.mount react key) := by
  intro s hs
  cases hp : s.players[key]? with
  | none =>
      rw [after, Stage.mount, withPlayer_none hp]
      exact hs
  | some p =>
      cases hidle : p.mounted with
      | true =>
          rw [after, Stage.mount, withPlayer_some hp, hidle]
          exact hs
      | false =>
          have hseat : s.seat? key = some (false, p.group) := by
            rw [seat?_of_players hp, hidle]
          have hticketless := (hs.ticketless hseat).of_same (.modifyPlayer s key
            (f := fun q => { q with ownsTimeline := (s.timeline? p.group).isNone })
            fun _ => ⟨rfl, rfl⟩)
          rw [after, mount_eq hp hidle]
          generalize s.modifyPlayer key _ = s₁ at hticketless ⊢
          have hopen := hticketless.of_same (.openTimeline s₁ p.group {
            fps := p.composition.fps
            mode := p.options.clockMode
            loop := p.options.loop
            duration := p.duration })
          unfold after at hopen
          cases hrun : openTimeline p.group _ s₁ with
          | error fault s₂ =>
              rw [hrun] at hopen
              rw [bind_error hrun]
              exact hopen.booked rfl
          | ok made s₂ =>
              rw [hrun] at hopen
              rw [bind_ok hrun]
              exact hopen.arrive hreact (openTimeline_opened hrun)

theorem Booked.unmount (key : Nat) : Keeps (Booked : Stage T C W → Prop) (Stage.unmount key) := by
  intro s hs
  cases hp : s.players[key]? with
  | none =>
      rw [after, Stage.unmount, withPlayer_none hp]
      exact hs
  | some p =>
      rw [after, Stage.unmount, withPlayer_some hp]
      cases hmounted : p.mounted with
      | false => exact hs
      | true =>
          have hclockless : Clockless (Ticketless key (true, p.group) : Stage T C W → Prop) :=
            clockless_of_same fun _ _ hsame hs => hs.of_same hsame
          have hleave : Leads (Ticketless key (true, p.group)) (Booked : Stage T C W → Prop)
              (updatePlayer key fun p => { p with mounted := false }) := by
            intro s hs
            have hleft : Ticketless key (false, p.group)
                (s.modifyPlayer key fun p => { p with mounted := false }) :=
              hs.modifyPlayer fun q hq => by rw [(Prod.mk.inj hq).2]
            exact hleft.booked rfl
          have hleft := hs.unsubscribe hp hmounted
          have hunsubscribe : Stage.unsubscribe p.group (.player key) s =
              .ok () (after (Stage.unsubscribe p.group (.player key)) s) := rfl
          rw [if_neg (by simp), bind_ok hunsubscribe]
          refine Goes.leads (I := Ticketless key (true, p.group)) (J := Booked) Goes.get
            (fun s => ?_) _ hleft
          split
          · split
            · exact (hclockless.steady.calm.stop _).leads fun _ => hleave
            · exact hleave
          · exact hleave

end Cuesheet.Stage
