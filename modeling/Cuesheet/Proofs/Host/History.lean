import Cuesheet.Proofs.Host.Loads
import Cuesheet.Stage.Loading

/-!
# The history of a host

What is asked of a host is kept in a history, the latest first: its loads with their numbers, the
closes, the calls that take its player off, and how the loads that went on ended. A load is
*superseded* once another load or a close came after it. `Agrees` says what the history tells about
the loads of a host, and which player answers to it: the one that the load asked for last gave, if
nothing was asked for since.
-/

namespace Cuesheet

open Stage (LoadResult)

inductive HostEvent where
  | loaded (load : Nat)
  | closed
  | unmounted
  /-- A load went on after its fetch and ended with a result, or failed. -/
  | resumed (load : Nat) (result : Option LoadResult)
  deriving DecidableEq, Repr

namespace HostEvent

/-- After a load came another one, or a close. -/
def Superseded (load : Nat) : List HostEvent → Prop
  | [] => False
  | .loaded _ :: earlier => .loaded load ∈ earlier ∨ Superseded load earlier
  | .closed :: earlier => .loaded load ∈ earlier ∨ Superseded load earlier
  | .unmounted :: earlier => Superseded load earlier
  | .resumed _ _ :: earlier => Superseded load earlier

/-- What was asked of a host last. -/
def lastCall : List HostEvent → Option HostEvent
  | [] => none
  | .resumed _ _ :: earlier => lastCall earlier
  | event :: _ => some event

theorem begun_of_superseded {load : Nat} {events : List HostEvent}
    (hsuperseded : Superseded load events) : .loaded load ∈ events := by
  induction events with
  | nil => exact hsuperseded.elim
  | cons event earlier ih =>
      refine List.mem_cons_of_mem _ ?_
      cases event with
      | loaded _ => exact hsuperseded.elim id ih
      | closed => exact hsuperseded.elim id ih
      | unmounted => exact ih hsuperseded
      | resumed _ _ => exact ih hsuperseded

end HostEvent

open HostEvent

variable {loads : Loads} {answer : Option Nat} {events : List HostEvent} {load : Nat}

/-- What the history of a host tells about its loads, and the player that answers to it. -/
structure Agrees (loads : Loads) (answer : Option Nat) (events : List HostEvent) : Prop where
  sound : loads.Sound
  loaded : ∀ load, .loaded load ∈ events → load < loads.states.length
  resumed : ∀ load result, .resumed load result ∈ events → load < loads.states.length
  superseded : ∀ load, Superseded load events → loads.current ≠ some load
  current : ∀ load, lastCall events = some (.loaded load) → loads.current = some load
  answers : ∀ load key, lastCall events = some (.loaded load) →
    .resumed load (some (.mounted key)) ∈ events → answer = some key

namespace Agrees

theorem empty : Agrees {} none [] where
  sound := Loads.sound_empty
  loaded := nofun
  resumed := nofun
  superseded := nofun
  current := nofun
  answers := nofun

/-- A load that was superseded ends without a result. -/
theorem continuation (ha : Agrees loads answer events) (hsuperseded : Superseded load events) :
    loads.continuation load = .superseded :=
  ha.sound.continuation_of_ne (ha.loaded load (begun_of_superseded hsuperseded))
    (ha.superseded load hsuperseded)

/-- Where nothing answers, anything may. -/
theorem unanswered (ha : Agrees loads none events) : Agrees loads answer events :=
  { ha with answers := fun load key hlast hresumed => nomatch ha.answers load key hlast hresumed }

/-- Nothing answers before the load that counts has gone on. -/
theorem asked (ha : Agrees loads answer events) (hcurrent : loads.current = some load)
    (honce : ∀ result, .resumed load result ∉ events) : Agrees loads none events :=
  { ha with
    answers := fun load' key hlast hresumed => by
      obtain rfl := Option.some.inj (hcurrent.symm.trans (ha.current load' hlast))
      exact absurd hresumed (honce _) }

/-! ## What is asked of a host -/

theorem afterLoad (ha : Agrees loads answer events) :
    Agrees loads.start.2 answer (.loaded loads.start.1 :: events) where
  sound := ha.sound.start
  loaded load hload := by
    rw [Loads.start_length, Loads.start_fst]
    rcases List.mem_cons.mp hload with heq | hearlier
    · cases heq
      exact Nat.lt_succ_of_le (Nat.le_of_eq (Loads.start_fst loads))
    · exact Nat.lt_succ_of_lt (ha.loaded load hearlier)
  resumed load result hresumed := by
    rw [Loads.start_length, Loads.start_fst]
    rcases List.mem_cons.mp hresumed with heq | hearlier
    · cases heq
    · exact Nat.lt_succ_of_lt (ha.resumed load result hearlier)
  superseded load hsuperseded hcurrent := by
    rw [Loads.start_current, Loads.start_fst] at hcurrent
    have hbegun : .loaded load ∈ events := hsuperseded.elim id begun_of_superseded
    exact absurd (Option.some.inj hcurrent) (Nat.ne_of_gt (ha.loaded load hbegun))
  current load hlast := by
    cases hlast
    exact Loads.start_current loads
  answers load key hlast hresumed := by
    cases hlast
    -- a load that only begins has not ended yet
    rcases List.mem_cons.mp hresumed with heq | hearlier
    · cases heq
    · exact absurd (ha.resumed _ _ hearlier) (by rw [Loads.start_fst]; exact Nat.lt_irrefl _)

theorem afterClose (ha : Agrees loads answer events) :
    Agrees loads.close none (.closed :: events) where
  sound := ha.sound.close
  loaded load hload := by
    rw [Loads.close_length]
    exact ha.loaded load ((List.mem_cons.mp hload).resolve_left nofun)
  resumed load result hresumed := by
    rw [Loads.close_length]
    exact ha.resumed load result ((List.mem_cons.mp hresumed).resolve_left nofun)
  superseded := nofun
  current := nofun
  answers := nofun

theorem afterUnmount (ha : Agrees loads answer events) :
    Agrees loads none (.unmounted :: events) where
  sound := ha.sound
  loaded load hload := ha.loaded load ((List.mem_cons.mp hload).resolve_left nofun)
  resumed load result hresumed :=
    ha.resumed load result ((List.mem_cons.mp hresumed).resolve_left nofun)
  superseded load hsuperseded := ha.superseded load hsuperseded
  current := nofun
  answers := nofun

/-! ## What becomes of the loads -/

theorem afterFinish (ha : Agrees loads answer events) (load : Nat) {state : LoadState}
    (hended : state ≠ .pending) (hunbroken : ∀ fault, state ≠ .done (.broken fault)) :
    Agrees (loads.finish load state) answer events where
  sound := ha.sound.finish load hended hunbroken
  loaded load' hload := by
    rw [Loads.finish_length]
    exact ha.loaded load' hload
  resumed load' result hresumed := by
    rw [Loads.finish_length]
    exact ha.resumed load' result hresumed
  superseded load' hsuperseded := by
    rw [Loads.finish_current]
    exact ha.superseded load' hsuperseded
  current load' hlast := by
    rw [Loads.finish_current]
    exact ha.current load' hlast
  answers := ha.answers

/-- A load that went on has ended; a player that it gave answers. -/
theorem afterResume (ha : Agrees loads answer events) (hbegun : load < loads.states.length)
    {result : Option LoadResult}
    (hresult : ∀ key, result = some (.mounted key) → answer = some key) :
    Agrees loads answer (.resumed load result :: events) where
  sound := ha.sound
  loaded load' hload := ha.loaded load' ((List.mem_cons.mp hload).resolve_left nofun)
  resumed load' result' hresumed := by
    rcases List.mem_cons.mp hresumed with heq | hearlier
    · cases heq
      exact hbegun
    · exact ha.resumed load' result' hearlier
  superseded load' hsuperseded := ha.superseded load' hsuperseded
  current load' hlast := ha.current load' hlast
  answers load' key hlast hresumed := by
    rcases List.mem_cons.mp hresumed with heq | hearlier
    · cases heq
      exact hresult key rfl
    · exact ha.answers load' key hlast hearlier

end Agrees

end Cuesheet
