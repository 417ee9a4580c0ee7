import Cuesheet.Proofs.Stage.Rates
import Cuesheet.Proofs.Stage.Visiting

/-!
# Lockstep

The players of one group that are mounted throughout a tick are told it once each, at one time, and
count the same frame in the same frames per second (`InStep`), unless the tick is cut short before
one of them is told (`lockstep_iff`). That happens where the clock cannot count the frame, so that
nobody is told, and where a player is told that was taken off meanwhile and cannot count the frame
in its own frames per second.
-/

namespace Cuesheet.Stage

variable {T C W : Type} [DecidableEq C] [TimeScalar T] {group : String} {key : Nat}
  {was s s' : Stage T C W} {react : React T C W}

/-! ## What a tick tells players -/

/-- What a player makes of a time: in how many frames per second it counts, and in which frame that
is, if it can be counted. -/
def reading? (s : Stage T C W) (key : Nat) (time : T) : Option (Number × Int) :=
  match s.players[key]? with
  | none => none
  | some p =>
    match TimeScalar.frameAt time (s.playerFps p) with
    | .error _ => none
    | .ok frame => some (s.playerFps p, frame)

/-- What a player is told by a frame, each time with what it makes of that. -/
def Delivered.readings (react : React T C W) (group : String) (frame : Delivered T C W)
    (key : Nat) : List (T × Option (Number × Int)) :=
  (frame.notices react group).filterMap fun (told, time) =>
    if told.subscriber = .player key then some (time, told.stage.reading? key time) else none

/-- A player is mounted in a group when a frame is delivered to its clock, and whenever somebody is
told. -/
def Throughout (react : React T C W) (group : String) (frame : Delivered T C W) (key : Nat) :
    Prop :=
  frame.stage.seat? key = some (true, group) ∧
    ∀ told ∈ frame.notices react group, told.1.stage.seat? key = some (true, group)

/-- Two players are told one time, once each, and count the same frame in the same frames per
second. -/
def InStep (react : React T C W) (group : String) (frame : Delivered T C W) (p q : Nat) : Prop :=
  ∃ time fps number, frame.readings react group p = [(time, some (fps, number))] ∧
    frame.readings react group q = [(time, some (fps, number))]

/-- A player that is told a time is not mounted, and cannot count its frame in the frames per second
of its composition. -/
def Stumbles (key : Nat) (time : T) (s : Stage T C W) : Prop :=
  ∃ p fault, s.players[key]? = some p ∧ p.mounted = false ∧
    TimeScalar.frameAt time p.composition.fps = .error fault

/-- Before a player is told, a tick breaks down: the clock cannot count its frame, or a player that
was mounted when the tick began has been taken off, is told nevertheless and cannot count the frame
by itself. -/
def CutShort (react : React T C W) (group : String) (tl : Timeline T (Subscriber C))
    (frame : Delivered T C W) (key : Nat) : Prop :=
  (∃ fault, (tl.moved frame.timestamp).frameNumber = .error fault) ∨
    ∃ told ∈ frame.notices react group, ∃ off before later,
      tl.subscribers = before ++ .player off :: later ∧ .player key ∈ later ∧
        told.1.subscriber = .player off ∧ Mounted off frame.stage ∧
          Stumbles off told.2 told.1.stage

/-- Wherever `I` holds callbacks do not fail. It holds on whatever clocks and players do by
themselves. -/
structure Reliable (react : React T C W) (I : Stage T C W → Prop) : Prop where
  goes : ∀ c notice, Goes I (react c notice)
  moving : ∀ s group tl now frame, s.timeline? group = some tl → I s →
    I (s.moving group tl now frame)
  remembering : ∀ s key (f : Player T C → Player T C),
    (∀ p, f p = p.withMemory (f p).memory) → I s → I (s.modifyPlayer key f)

variable {I : Stage T C W → Prop} {time : T} {frame : Int} {terms : Terms}
  {tl : Timeline T (Subscriber C)}

omit [DecidableEq C] in
/-- A player that is told the time fails only if it cannot count the frame. -/
theorem Reliable.handleTick (h : Reliable react I)
    (hvisits : ∀ c notice s, Visited s (after (react c notice) s)) {p : Player T C} (hs : I s)
    (hfits : Fitting [] was s) (hp : s.players[key]? = some p) :
    I (after (Stage.handleTick react key time) s) ∧
      ((∃ frame, TimeScalar.frameAt time (s.playerFps p) = .ok frame) →
        isOk (Stage.handleTick react key time s) = true) := by
  have hc : s.playing? key = some p.composition := by rw [playing?, hp]; rfl
  have hbusy : Occupied (Fitting [key] s) key p.composition :=
    Fitting.occupied List.mem_cons_self hc
  have hocc : Occupied (fun s' => Fitting [key] s s' ∧ I s') key p.composition :=
    ⟨fun s' hs' => hbusy.plays s' hs'.1, fun s' f hs' hf hfits =>
      ⟨hbusy.remembers s' f hs'.1 hf hfits, h.remembering s' key f hf hs'.2⟩⟩
  have hreact (c : C) (notice : Notice T) :
      Errs (fun _ => ∃ fault, TimeScalar.frameAt time (s.playerFps p) = .error fault)
        (fun s' => Fitting [key] s s' ∧ I s') (react c notice) := by
    intro s' hs'
    obtain ⟨_, s₁, hrun, hs₁⟩ := h.goes c notice s' hs'.2
    have hvisited := hvisits c notice s'
    rw [after, hrun] at hvisited ⊢
    exact ⟨⟨hs'.1.unmoved hvisited.unmoved, hs₁⟩, fun _ _ hfault => by cases hfault⟩
  obtain ⟨hafter, hfails⟩ := errs_handleTick hocc hreact ⟨hfits.refl [key], hs⟩
    fun q fault hq hfault => by
      obtain rfl := Option.some.inj (hp.symm.trans hq)
      exact ⟨fault, hfault⟩
  refine ⟨hafter.2, ?_⟩
  rintro ⟨frame, hframe⟩
  cases hrun : Stage.handleTick react key time s with
  | ok _ s' => rfl
  | error fault s' =>
      obtain ⟨fault', hfault⟩ := hfails fault s' hrun
      rw [hframe] at hfault
      cases hfault

/-- What holds whenever somebody is told the time by a tick. -/
structure Amid (I : Stage T C W → Prop) (was s : Stage T C W) : Prop where
  lasts : Lasting was s
  fitting : Fitting [] was s
  holds : I s

theorem Reliable.keeps_amid (h : Reliable react I) (hguests : Guests react)
    (subscriber : Subscriber C) (time : T) : Keeps (Amid I was) (hear react subscriber time) := by
  intro s hs
  refine ⟨hguests.keeps_lasting was subscriber time s hs.lasts,
    hguests.keeps_fitting was subscriber time s hs.fitting, ?_⟩
  cases subscriber with
  | call c => exact (h.goes c (.tick time)).keeps s hs.holds
  | player key =>
      cases hp : s.players[key]? with
      | none =>
          rw [after, Stage.hear, Stage.handleTick, withPlayer_none hp]
          exact hs.holds
      | some p => exact (h.handleTick hguests.visits hs.holds hs.fitting hp).1

omit [DecidableEq C] [TimeScalar T] in
/-- A player that is mounted counts in the frames per second of the clock of its group. -/
theorem playerFps_mounted {p : Player T C} (hmounted : p.mounted = true)
    (hterms : s.terms? p.group = some terms) : s.playerFps p = terms.fps := by
  obtain ⟨tl, htl, rfl⟩ := Option.map_eq_some_iff.mp hterms
  rw [playerFps, if_pos hmounted, htl]
  rfl

/-- Somebody who is told the time by a tick whose frame the clock can count does not fail, unless it
is a player that is not mounted and cannot count the frame. -/
theorem Reliable.hear (h : Reliable react I) (hguests : Guests react)
    (hterms : was.terms? group = some terms)
    (hframe : TimeScalar.frameAt time terms.fps = .ok frame) {subscriber : Subscriber C}
    (hmember : ∀ key, subscriber = .player key → was.groupOf? key = some group)
    (hs : Amid I was s) :
    isOk (Stage.hear react subscriber time s) = true ∨
      ∃ key, subscriber = .player key ∧ Stumbles key time s := by
  cases subscriber with
  | call c =>
      obtain ⟨_, s', hrun, -⟩ := h.goes c (.tick time) s hs.holds
      left
      rw [show Stage.hear react (.call c) time s = _ from hrun]
      rfl
  | player key =>
      obtain ⟨p, hp, hgroup⟩ := Option.map_eq_some_iff.mp
        (hs.lasts.groups key group (hmember key rfl))
      have hgoes (frame : Int) (hcounts : TimeScalar.frameAt time (s.playerFps p) = .ok frame) :
          isOk (Stage.hear react (.player key) time s) = true :=
        (h.handleTick hguests.visits hs.holds hs.fitting hp).2 ⟨frame, hcounts⟩
      cases hmounted : p.mounted with
      | true =>
          rw [← hgroup] at hterms
          refine .inl (hgoes frame ?_)
          rw [playerFps_mounted hmounted (hs.lasts.terms _ _ hterms)]
          exact hframe
      | false =>
          cases hown : TimeScalar.frameAt time p.composition.fps with
          | ok frame =>
              refine .inl (hgoes frame ?_)
              rw [playerFps, hmounted]
              exact hown
          | error fault => exact .inr ⟨key, rfl, p, fault, hp, hmounted, hown⟩

omit [DecidableEq C] in
/-- A player that stumbles fails. -/
theorem Stumbles.fails (react : React T C W) (h : Stumbles key time s) :
    isOk (Stage.hear react (.player key) time s) = false := by
  obtain ⟨p, fault, hp, hidle, hframe⟩ := h
  have hfps : s.playerFps p = p.composition.fps := by rw [playerFps, hidle]; rfl
  have hrun : Stage.hear react (.player key) time s = .error (.clock (.arith fault)) s := by
    rw [Stage.hear, Stage.handleTick, withPlayer_some hp, bind_ok (fpsOf_eq s p), hfps, hframe]
    exact bind_error rfl _
  rw [hrun]
  rfl

/-! ## Who is told -/

omit [DecidableEq C] in
/-- Either nobody fails and everyone is told, or nobody is told after the first who fails. -/
theorem hearers_cases (react : React T C W) (group : String) (time : T) :
    ∀ (subscribers : List (Subscriber C)) (s : Stage T C W),
      (hearers react group time subscribers s).map Telling.subscriber = subscribers ∧
          (∀ t ∈ hearers react group time subscribers s,
            isOk (hear react t.subscriber time t.stage) = true) ∨
        ∃ told t later, hearers react group time subscribers s = told ++ [t] ∧
          subscribers = told.map Telling.subscriber ++ t.subscriber :: later ∧
          (∀ t ∈ told, isOk (hear react t.subscriber time t.stage) = true) ∧
            isOk (hear react t.subscriber time t.stage) = false := by
  intro subscribers
  induction subscribers with
  | nil => exact fun _ => .inl ⟨rfl, fun _ ht => absurd ht List.not_mem_nil⟩
  | cons subscriber rest ih =>
      intro s
      unfold hearers
      cases hhear : hear react subscriber time s with
      | error fault s' =>
          refine .inr ⟨[], _, rest, rfl, rfl, fun _ ht => absurd ht List.not_mem_nil, ?_⟩
          dsimp only
          rw [hhear]
          rfl
      | ok _ s' =>
          have hfirst : isOk (hear react subscriber time s) = true := by
            rw [hhear]
            rfl
          rcases ih s' with ⟨hall, hok⟩ | ⟨told, t, later, heq, hrest, hok, ht⟩
          · exact .inl ⟨congrArg (subscriber :: ·) hall, List.forall_mem_cons.mpr ⟨hfirst, hok⟩⟩
          · refine .inr ⟨⟨group, subscriber, s⟩ :: told, t, later, ?_, ?_, ?_, ht⟩
            · exact congrArg (_ :: ·) heq
            · exact congrArg (subscriber :: ·) hrest
            · exact List.forall_mem_cons.mpr ⟨hfirst, hok⟩

section Tick

variable {now : T} {number : Int} {p q : Nat}

omit [DecidableEq C] in
theorem notices_broken (htl : s.timeline? group = some tl) {fault : ArithFault}
    (hnumber : (tl.moved now).frameNumber = .error fault) :
    Delivered.notices react group ⟨now, s⟩ = [] := by
  cases hrun : tl.running <;> simp [Delivered.notices, tellings, htl, hrun, hnumber]

/-- A player that is mounted throughout makes the same of every telling. -/
theorem readings_eq {told : List (Telling T C W)} {r : T × Option (Number × Int)}
    (hnotices : Delivered.notices react group ⟨now, s⟩ = told.map fun t => (t, time))
    (hreading : ∀ t ∈ told, t.subscriber = .player p → (time, t.stage.reading? p time) = r) :
    Delivered.readings react group ⟨now, s⟩ p =
      List.replicate ((told.map Telling.subscriber).count (.player p)) r := by
  unfold Delivered.readings
  rw [hnotices]
  clear hnotices
  induction told with
  | nil => rfl
  | cons t rest ih =>
      obtain ⟨ht, hrest⟩ := List.forall_mem_cons.mp hreading
      rw [List.map_cons, List.filterMap_cons, ih hrest, List.map_cons]
      by_cases hplayer : t.subscriber = .player p
      · simp [hplayer, ht hplayer, List.replicate_succ]
      · simp [hplayer]

omit [TimeScalar T] in
theorem Booked.count (h : s.Booked) (htl : s.timeline? group = some tl)
    (hseat : s.seat? key = some (true, group)) : tl.subscribers.count (.player key) = 1 := by
  have hticket := h group key
  rw [if_pos hseat, tickets, subscribers?_of_timeline? htl] at hticket
  exact hticket

omit [TimeScalar T] in
/-- Whoever subscribes to a clock is mounted in its group. -/
theorem Booked.seat (h : s.Booked) (htl : s.timeline? group = some tl)
    (hmem : .player key ∈ tl.subscribers) : s.seat? key = some (true, group) := by
  refine (h.seated group key).2 ?_
  rw [tickets, subscribers?_of_timeline? htl]
  exact List.count_pos_iff.mpr hmem

/-- The players of a clock that can count its frame are told in order, up to the first who
stumbles. -/
theorem Reliable.tick_told (h : Reliable react I) (hguests : Guests react) (hs : Proper s)
    (hI : I s) (htl : s.timeline? group = some tl)
    (hnumber : (tl.moved now).frameNumber = .ok number) :
    (∀ t ∈ hearers react group (tl.moved now).time tl.subscribers (s.moving group tl now number),
      Amid I s t.stage) ∧
    ((hearers react group (tl.moved now).time tl.subscribers
          (s.moving group tl now number)).map Telling.subscriber = tl.subscribers ∧
        (∀ t ∈ hearers react group (tl.moved now).time tl.subscribers
            (s.moving group tl now number),
          isOk (Stage.hear react t.subscriber (tl.moved now).time t.stage) = true) ∨
      ∃ told t key later, hearers react group (tl.moved now).time tl.subscribers
          (s.moving group tl now number) = told ++ [t] ∧
        tl.subscribers = told.map Telling.subscriber ++ .player key :: later ∧
        (∀ t ∈ told, isOk (Stage.hear react t.subscriber (tl.moved now).time t.stage) = true) ∧
        t.subscriber = .player key ∧ Stumbles key (tl.moved now).time t.stage) := by
  have hid : tl.id = group := timeline?_id htl
  have hbegin : Amid I s (s.moving group tl now number) := by
    refine ⟨.modifyTimeline s (fun _ _ => hid) fun tl' htl' => ?_,
      ⟨hs.fitting.fits, fun _ hkey => nomatch hkey⟩, h.moving s group tl now number htl hI⟩
    obtain rfl := Option.some.inj (htl.symm.trans htl')
    rfl
  have hamid := hearers_kept (h.keeps_amid hguests) group (tl.moved now).time tl.subscribers _
    hbegin
  refine ⟨hamid, ?_⟩
  rcases hearers_cases react group (tl.moved now).time tl.subscribers
      (s.moving group tl now number) with hall | ⟨told, t, later, heq, hsubs, hok, hfails⟩
  · exact .inl hall
  · have ht : t ∈ hearers react group (tl.moved now).time tl.subscribers
        (s.moving group tl now number) := by
      rw [heq]
      simp
    have hterms : s.terms? group = some tl.terms := by rw [terms?, htl]; rfl
    have hmember (key : Nat) (hplayer : t.subscriber = .player key) :
        s.groupOf? key = some group := by
      have hmem : .player key ∈ tl.subscribers := by
        rw [hsubs, hplayer]
        simp
      obtain ⟨p, hp, hseat⟩ := Option.map_eq_some_iff.mp (hs.booked.seat htl hmem)
      rw [groupOf?, hp]
      exact congrArg some (Prod.mk.inj hseat).2
    rcases h.hear hguests hterms hnumber hmember (hamid t ht) with hfine | ⟨key, hplayer, hstumbles⟩
    · rw [hfine] at hfails
      cases hfails
    · exact .inr ⟨told, t, key, later, heq, hplayer ▸ hsubs, hok, hplayer, hstumbles⟩

/-- A player that is mounted throughout a tick counts, each time that it is told, the frame of the
clock in its frames per second. -/
theorem Reliable.readings (h : Reliable react I) (hguests : Guests react) (hs : Proper s)
    (hI : I s) (htl : s.timeline? group = some tl) (hrun : tl.running = true)
    (hnumber : (tl.moved now).frameNumber = .ok number)
    (hp : Throughout react group ⟨now, s⟩ p) :
    Delivered.readings react group ⟨now, s⟩ p =
      List.replicate (((hearers react group (tl.moved now).time tl.subscribers
          (s.moving group tl now number)).map Telling.subscriber).count (.player p))
        ((tl.moved now).time, some (tl.fps, number)) := by
  have hnotices := notices_moving react htl hrun hnumber
  refine readings_eq hnotices fun t ht _ => ?_
  have hseat : t.stage.seat? p = some (true, group) := by
    refine hp.2 (t, (tl.moved now).time) ?_
    rw [hnotices]
    exact List.mem_map_of_mem ht
  obtain ⟨q, hq, heq⟩ := Option.map_eq_some_iff.mp hseat
  obtain ⟨hmounted, hgroup⟩ := Prod.mk.inj heq
  have hterms : t.stage.terms? q.group = some tl.terms := by
    refine (((h.tick_told hguests hs hI htl hnumber).1 t ht).lasts.terms _ _ ?_)
    rw [hgroup, terms?, htl]
    rfl
  have hframe : TimeScalar.frameAt (tl.moved now).time (t.stage.playerFps q) = .ok number := by
    rw [playerFps_mounted hmounted hterms]
    exact hnumber
  rw [reading?, hq]
  dsimp only
  rw [hframe, playerFps_mounted hmounted hterms]
  rfl

/-- What is once in a list is in its beginning unless it is in the rest. -/
theorem count_beginning {α : Type} [DecidableEq α] {beginning rest : List α} {a : α}
    (h : (beginning ++ rest).count a = 1) :
    beginning.count a = if a ∈ rest then 0 else 1 := by
  rw [List.count_append] at h
  split
  · rename_i hmem
    have hpos := List.count_pos_iff.mpr hmem
    omega
  · rename_i hmem
    rw [List.count_eq_zero.mpr hmem] at h
    exact h

/-- What is once in a list has but one place there. -/
theorem rest_unique {α : Type} [DecidableEq α] {before rest before' rest' : List α} {a : α}
    (h : (before ++ a :: rest).count a = 1) (heq : before ++ a :: rest = before' ++ a :: rest') :
    rest = rest' := by
  rw [List.count_append, List.count_cons_self] at h
  have hbefore : a ∉ before := List.count_eq_zero.mp (by omega)
  have hrest : a ∉ rest := List.count_eq_zero.mp (by omega)
  exact ((List.append_cons_inj_of_notMem hbefore hrest).mp heq).2.2

/-- A player that is mounted throughout a tick is told once, and makes of it what the clock does,
unless the tick is cut short before. -/
theorem Reliable.readings_cases (h : Reliable react I) (hguests : Guests react) (hs : Proper s)
    (hI : I s) (htl : s.timeline? group = some tl) (hrun : tl.running = true)
    (hp : Throughout react group ⟨now, s⟩ p) :
    CutShort react group tl ⟨now, s⟩ p ∧ Delivered.readings react group ⟨now, s⟩ p = [] ∨
      ¬ CutShort react group tl ⟨now, s⟩ p ∧ ∃ number, (tl.moved now).frameNumber = .ok number ∧
        Delivered.readings react group ⟨now, s⟩ p =
          [((tl.moved now).time, some (tl.fps, number))] := by
  cases hnumber : (tl.moved now).frameNumber with
  | error fault =>
      refine .inl ⟨.inl ⟨fault, hnumber⟩, ?_⟩
      rw [Delivered.readings, notices_broken htl hnumber]
      rfl
  | ok number =>
      have hnotices := notices_moving react htl hrun hnumber
      have honce := hs.booked.count htl hp.1
      have hread := h.readings hguests hs hI htl hrun hnumber hp
      rcases (h.tick_told hguests hs hI htl hnumber).2 with
        ⟨hall, hok⟩ | ⟨told, t, off, later, heq, hsubs, hok, hplayer, hstumbles⟩
      · refine .inr ⟨?_, number, rfl, ?_⟩
        · rintro (⟨fault, hfault⟩ | ⟨t, ht, off, -, -, -, -, hplayer, -, hstumbles⟩)
          · rw [hnumber] at hfault
            cases hfault
          · rw [hnotices] at ht
            obtain ⟨t', ht', rfl⟩ := List.mem_map.mp ht
            have hfail := hstumbles.fails react
            rw [← hplayer, hok t' ht'] at hfail
            cases hfail
        · rw [hread, hall, honce]
          rfl
      · have hsplit : tl.subscribers =
            (told.map Telling.subscriber ++ [.player off]) ++ later := by
          rw [hsubs, List.append_assoc]
          rfl
        have hcount : ((told ++ [t]).map Telling.subscriber).count (.player p) =
            if .player p ∈ later then 0 else 1 := by
          rw [List.map_append, List.map_singleton, hplayer]
          exact count_beginning (hsplit ▸ honce)
        have hseat : s.seat? off = some (true, group) := hs.booked.seat htl (by simp [hsubs])
        rw [hread, heq, hcount]
        by_cases hlater : .player p ∈ later
        · refine .inl ⟨.inr ⟨(t, (tl.moved now).time), ?_, off, _, later, hsubs, hlater, hplayer,
            mounted_of_seat hseat, hstumbles⟩, ?_⟩
          · rw [hnotices, heq]
            simp
          · rw [if_pos hlater]
            rfl
        · refine .inr ⟨?_, number, rfl, by rw [if_neg hlater]; rfl⟩
          rintro (⟨fault, hfault⟩ | ⟨t', ht', off', before', later', hsubs', hlater', hplayer', -,
            hstumbles'⟩)
          · rw [hnumber] at hfault
            cases hfault
          · rw [hnotices, heq] at ht'
            obtain ⟨t'', hmem, rfl⟩ := List.mem_map.mp ht'
            rcases List.mem_append.mp hmem with hmem | hmem
            · have hfail := hstumbles'.fails react
              rw [← hplayer', hok t'' hmem] at hfail
              cases hfail
            -- it is the one after whom nobody is told, and has but one place among the subscribers
            · obtain rfl := List.mem_singleton.mp hmem
              obtain rfl := Subscriber.player.inj (hplayer.symm.trans hplayer')
              have honceoff := hs.booked.count htl hseat
              rw [hsubs] at honceoff
              obtain rfl := rest_unique honceoff (hsubs.symm.trans hsubs')
              exact hlater hlater'
/-- Players that are mounted throughout a tick are in step unless it is cut short before one of
them. -/
theorem Reliable.inStep_iff (h : Reliable react I) (hguests : Guests react) (hs : Proper s)
    (hI : I s) (htl : s.timeline? group = some tl) (hrun : tl.running = true)
    (hp : Throughout react group ⟨now, s⟩ p) (hq : Throughout react group ⟨now, s⟩ q) :
    InStep react group ⟨now, s⟩ p q ↔
      ¬ CutShort react group tl ⟨now, s⟩ p ∧ ¬ CutShort react group tl ⟨now, s⟩ q := by
  rcases h.readings_cases hguests hs hI htl hrun hp with ⟨hcut, hnone⟩ | ⟨hfar, n, hn, hreadp⟩
  · refine iff_of_false ?_ fun hboth => hboth.1 hcut
    rintro ⟨time, fps, number, htold, -⟩
    rw [hnone] at htold
    cases htold
  · rcases h.readings_cases hguests hs hI htl hrun hq with ⟨hcut, hnone⟩ | ⟨hfarq, m, hm, hreadq⟩
    · refine iff_of_false ?_ fun hboth => hboth.2 hcut
      rintro ⟨time, fps, number, -, htold⟩
      rw [hnone] at htold
      cases htold
    · obtain rfl := Except.ok.inj (hn.symm.trans hm)
      exact iff_of_true ⟨_, _, n, hreadp, hreadq⟩ ⟨hfar, hfarq⟩

end Tick

/-! ## Lockstep -/

omit [DecidableEq C] [TimeScalar T] in
/-- What a player asks of the clock of its group, should it be the first there, if that can be. -/
def firstTerms? (p : Player T C) : Option Terms :=
  match ClockMode.ofString? p.options.clockMode with
  | none => none
  | some mode =>
    if p.composition.fps.isNonpositive then none
    else some ⟨p.composition.fps, mode, p.options.loop⟩

omit [DecidableEq C] in
theorem create_firstTerms {p : Player T C} (h : firstTerms? p = some terms) :
    ∃ tl : Timeline T (Subscriber C), Timeline.create p.group {
        fps := p.composition.fps
        mode := p.options.clockMode
        loop := p.options.loop
        duration := p.duration } = .ok tl ∧ tl.id = p.group ∧ tl.terms = terms := by
  unfold firstTerms? at h
  cases hmode : ClockMode.ofString? p.options.clockMode with
  | none =>
      rw [hmode] at h
      cases h
  | some mode =>
      rw [hmode] at h
      dsimp only at h
      split at h
      · cases h
      · rename_i hfps
        cases h
        refine ⟨{
          id := p.group
          fps := p.composition.fps
          mode
          loop := p.options.loop
          duration := p.duration
          time := TimeScalar.zero }, ?_, rfl, rfl⟩
        rw [Timeline.create, hmode]
        exact if_neg hfps

/-- The player that is mounted first in a group says what the clock of the group is made with. -/
theorem Guests.mount_first (h : Guests react) {p : Player T C} (hp : s.players[key]? = some p)
    (hidle : p.mounted = false) (hnone : s.timeline? p.group = none)
    (hterms : firstTerms? p = some terms) :
    (after (Stage.mount react key) s).terms? p.group = some terms ∧
      (s.defaultGroup = none →
        (after (Stage.mount react key) s).defaultGroup = some p.group) := by
  obtain ⟨tl, hcreate, hid, rfl⟩ := create_firstTerms hterms
  rw [after, mount_eq hp hidle]
  have hnone₁ : (s.modifyPlayer key fun q =>
      { q with ownsTimeline := (s.timeline? p.group).isNone }).timeline? p.group = none := hnone
  have hclocks : (s.modifyPlayer key fun q =>
      { q with ownsTimeline := (s.timeline? p.group).isNone }).timelines = s.timelines := rfl
  generalize s.modifyPlayer key _ = s₁ at hnone₁ hclocks ⊢
  have hopen := openTimeline_eq p.group {
    fps := p.composition.fps
    mode := p.options.clockMode
    loop := p.options.loop
    duration := p.duration } s₁
  rw [hnone₁, hcreate] at hopen
  rw [bind_ok hopen, ← after]
  have hlasts := (h.arrive key p { s₁ with timelines := s₁.timelines ++ [tl] }).lasts
  refine ⟨hlasts.terms _ _ ?_, fun hempty => hlasts.defaultGroup ?_⟩
  · rw [terms?, timeline?_append, hnone₁, hid]
    simp
  · have hnil : s.timelines = [] := by
      simpa [defaultGroup] using hempty
    simp [defaultGroup, hclocks, hnil, hid]

/-- Whoever is mounted and unmounted, also during ticks: the clock of a group stays as the player
made it that was mounted first there, and the clock that was made first stays the first. Any two
players of a group that are mounted throughout a tick of a running clock are in step, provided that
the tick is not cut short before one of them. -/
theorem lockstep_iff (hguests : Guests react) (hreliable : Reliable react I) (hs : s.Booked)
    (hfresh : ∀ p ∈ s.players, p.memory = {}) (hrun : Session react s s') :
    (∀ group terms, s.terms? group = some terms → s'.terms? group = some terms) ∧
    (∀ group, s.defaultGroup = some group → s'.defaultGroup = some group) ∧
    (∀ key p terms s'', s'.players[key]? = some p → p.mounted = false →
      s'.timeline? p.group = none → firstTerms? p = some terms →
        Session react (after (mount react key) s') s'' →
          s''.terms? p.group = some terms ∧
            (s'.defaultGroup = none → s''.defaultGroup = some p.group)) ∧
    (I s' → ∀ group tl now p q, s'.timeline? group = some tl → tl.running = true →
      Throughout react group ⟨now, s'⟩ p → Throughout react group ⟨now, s'⟩ q →
        (InStep react group ⟨now, s'⟩ p q ↔
          ¬ CutShort react group tl ⟨now, s'⟩ p ∧ ¬ CutShort react group tl ⟨now, s'⟩ q)) := by
  have hproper : Proper s := by
    refine ⟨hs, fun key p hp => ?_, fun _ hkey => nomatch hkey⟩
    rw [hfresh p (List.mem_of_getElem? hp)]
    exact Memory.fits_fresh _
  obtain ⟨hproper', hlasts⟩ := hguests.session hproper hrun
  refine ⟨hlasts.terms, fun group => hlasts.defaultGroup, ?_, ?_⟩
  · intro key p terms s'' hp hidle hnone hterms hlater
    have hmounted : Proper (after (mount react key) s') :=
      (hguests.session hproper (hrun.mount key)).1
    have hlasts' := (hguests.session hmounted hlater).2
    obtain ⟨hfirst, hdefault⟩ := hguests.mount_first hp hidle hnone hterms
    exact ⟨hlasts'.terms _ _ hfirst, fun hempty => hlasts'.defaultGroup (hdefault hempty)⟩
  · intro hI group tl now p q htl hrunning hp hq
    exact hreliable.inStep_iff hguests hproper' hI htl hrunning hp hq

/-! ## Players that come and go during a tick -/

/-- Told of an event, takes one player off and mounts another one. -/
def swapping {T : Type} [TimeScalar T] : React T Unit Unit := fun _ notice =>
  match notice with
  | .event _ => do
    unmount 1
    attempt (mount (fun _ _ => pure ()) 2)
  | _ => pure ()

theorem still_guests {T : Type} [TimeScalar T] :
    Guests (fun _ _ => pure () : React T Unit Unit) :=
  ⟨fun _ _ => .pure (), fun _ _ s => .refl s⟩

theorem swapping_guests {T : Type} [TimeScalar T] : Guests (swapping : React T Unit Unit) := by
  refine ⟨fun c notice => ?_, fun c notice s => ?_⟩
  · cases notice with
    | event event =>
        exact .bind (Booked.unmount 1) fun _ => .attempt (Booked.mount still_guests.books 2)
    | _ => exact .pure ()
  · cases notice with
    | event event =>
        have hswap : Keeps (Visited s) (swapping c (.event event)) :=
          .bind (keeps_visited (visited_unmount 1)) fun _ =>
            .attempt (keeps_visited (still_guests.mount 2))
        exact hswap s (.refl s)
    | _ => exact .refl s

theorem swapping_reliable {T : Type} [TimeScalar T] :
    Reliable (swapping : React T Unit Unit) (fun _ => True) := by
  have hcalm : Calm (fun _ => True : Stage T Unit Unit → Prop) :=
    ⟨fun _ _ _ => trivial, fun _ _ _ _ _ => trivial⟩
  have hkeeps {act : Action T Unit Unit Unit} : Keeps (fun _ => True) act := fun _ _ => trivial
  refine ⟨fun c notice => ?_, fun _ _ _ _ _ _ _ => trivial, fun _ _ _ _ _ => trivial⟩
  cases notice with
  | event event =>
      refine .bind (.withPlayer fun p => ?_) fun _ => .attempt hkeeps
      split
      · exact .pure ()
      · refine .bind (.change fun _ _ => trivial) fun _ => .bind .get fun s => ?_
        split
        · split
          · exact .bind (hcalm.stop _) fun _ => .change fun _ _ => trivial
          · exact .change fun _ _ => trivial
        · exact .change fun _ _ => trivial
  | _ => exact .pure ()

/-- Nothing to play, at some frames per second. -/
def blank (fps : Number) : Composition Float where
  id := "blank"
  title := none
  fps := fps
  width := .int 1
  height := .int 1
  scenes := []
  duration := none
  poster := none
  voiceover := none
  handlers := []
  scripts := []

/-- Players of one group, the first of which hears of its ticks. -/
def band (second : Number) : Stage Float Unit Unit where
  source := .manual 0 {}
  players := [
    { composition := blank (.int 30), options := {}, group := "band",
      listeners := [(.timelineTick, ())] },
    { composition := blank second, options := {}, group := "band" },
    { composition := blank (.int 25), options := {}, group := "band" },
    { composition := blank (.int 50), options := {}, group := "band" }]
  outside := ()

/-- All but one of them are mounted. -/
def bandOn (second : Number) : Stage Float Unit Unit :=
  after (mount swapping 3) (after (mount swapping 1) (after (mount swapping 0) (band second)))

theorem band_session (second : Number) : Session swapping (band second) (bandOn second) :=
  .mount (.mount (.mount .start 0) 1) 3

theorem band_booked (second : Number) : (band second).Booked := by
  intro group key
  have hidle : (band second).seat? key ≠ some (true, group) := by
    intro hseat
    obtain ⟨p, hp, heq⟩ := Option.map_eq_some_iff.mp hseat
    have hmem := List.mem_of_getElem? hp
    simp only [band, List.mem_cons, List.not_mem_nil, or_false] at hmem
    rcases hmem with rfl | rfl | rfl | rfl <;> cases heq
  rw [if_neg hidle]
  rfl

theorem band_fresh (second : Number) : ∀ p ∈ (band second).players, p.memory = {} := by
  intro p hmem
  simp only [band, List.mem_cons, List.not_mem_nil, or_false] at hmem
  rcases hmem with rfl | rfl | rfl | rfl <;> rfl

/-- The players that stay are in step although one is taken off and one is mounted before them. -/
theorem lockstep_swapped : Guests (swapping : React Float Unit Unit) ∧
    Reliable (swapping : React Float Unit Unit) (fun _ => True) ∧ (band (.int 60)).Booked ∧
    (∀ p ∈ (band (.int 60)).players, p.memory = {}) ∧
    Session swapping (band (.int 60)) (bandOn (.int 60)) ∧
    Throughout swapping "band" ⟨0, bandOn (.int 60)⟩ 0 ∧
    Throughout swapping "band" ⟨0, bandOn (.int 60)⟩ 3 ∧
    InStep swapping "band" ⟨0, bandOn (.int 60)⟩ 0 3 ∧
    (after (tick (hear swapping) "band" 0) (bandOn (.int 60))).players.map Player.mounted =
      [true, false, true, true] := by
  have hmounted : (bandOn (.int 60)).seat? 0 = some (true, "band") ∧
      (bandOn (.int 60)).seat? 3 = some (true, "band") := by decide +kernel
  have hstay : ∀ told ∈ Delivered.notices swapping "band" ⟨0, bandOn (.int 60)⟩,
      told.1.stage.seat? 0 = some (true, "band") ∧ told.1.stage.seat? 3 = some (true, "band") := by
    decide +kernel
  have hcounts : ∀ told ∈ Delivered.notices swapping "band" ⟨0, bandOn (.int 60)⟩,
      ∀ p ∈ told.1.stage.players,
        (TimeScalar.frameAt told.2 p.composition.fps).isOk = true := by
    decide +kernel
  have hclock : ((bandOn (.int 60)).timeline? "band").map (fun tl =>
      (tl.running, (tl.moved 0).frameNumber.isOk)) = some (true, true) := by decide +kernel
  obtain ⟨tl, htl, heq⟩ := Option.map_eq_some_iff.mp hclock
  obtain ⟨hrun, hnumber⟩ := Prod.mk.inj heq
  have huncut (key : Nat) : ¬ CutShort swapping "band" tl ⟨0, bandOn (.int 60)⟩ key := by
    rintro (⟨fault, hfault⟩ | ⟨told, htold, off, -, -, -, -, -, -, p, fault, hp, -, hframe⟩)
    · rw [show (tl.moved 0).frameNumber = _ from hfault] at hnumber
      cases hnumber
    · have hok := hcounts told htold p (List.mem_of_getElem? hp)
      rw [hframe] at hok
      cases hok
  have hfirst : Throughout swapping "band" ⟨0, bandOn (.int 60)⟩ 0 :=
    ⟨hmounted.1, fun told htold => (hstay told htold).1⟩
  have hlast : Throughout swapping "band" ⟨0, bandOn (.int 60)⟩ 3 :=
    ⟨hmounted.2, fun told htold => (hstay told htold).2⟩
  refine ⟨swapping_guests, swapping_reliable, band_booked _, band_fresh _, band_session _, hfirst,
    hlast, ?_, by decide +kernel⟩
  exact ((lockstep_iff swapping_guests swapping_reliable (band_booked _) (band_fresh _)
    (band_session _)).2.2.2 trivial "band" tl 0 0 3 htl hrun hfirst hlast).mpr
      ⟨huncut 0, huncut 3⟩

/-- If the one that is taken off cannot count the frame by itself, the last one is not told. -/
theorem lockstep_stumbled : Guests (swapping : React Float Unit Unit) ∧
    Reliable (swapping : React Float Unit Unit) (fun _ => True) ∧
    (band (.int (10 ^ 309))).Booked ∧ (∀ p ∈ (band (.int (10 ^ 309))).players, p.memory = {}) ∧
    Session swapping (band (.int (10 ^ 309))) (bandOn (.int (10 ^ 309))) ∧
    Throughout swapping "band" ⟨0, bandOn (.int (10 ^ 309))⟩ 0 ∧
    Throughout swapping "band" ⟨0, bandOn (.int (10 ^ 309))⟩ 3 ∧
    ¬ InStep swapping "band" ⟨0, bandOn (.int (10 ^ 309))⟩ 0 3 := by
  refine ⟨swapping_guests, swapping_reliable, band_booked _, band_fresh _, band_session _,
    ⟨by decide +kernel, by decide +kernel⟩, ⟨by decide +kernel, by decide +kernel⟩, ?_⟩
  have hnone : (Delivered.readings swapping "band" ⟨0, bandOn (.int (10 ^ 309))⟩ 3).length = 0 := by
    decide +kernel
  rintro ⟨time, fps, number, -, htold⟩
  rw [htold] at hnone
  cases hnone

end Cuesheet.Stage
