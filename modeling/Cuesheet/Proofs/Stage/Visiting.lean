import Cuesheet.Proofs.Stage.Booking
import Cuesheet.Proofs.Stage.Remembering

/-!
# Guests

Players may be made, mounted and unmounted by whoever is told something, also in the middle of a
tick (`Guests`). Nothing of that changes what a clock was made with, in which group a player is
(`Lasting`) or what players play and remember (`Unmoved`); what happens besides is a visit, too
(`Visited`). So however mounts, unmounts and ticks follow each other, clocks stay as they were made
and every player keeps its one ticket and a memory that fits (`Guests.session`).
-/

namespace Cuesheet.Stage

variable {T C W : Type} {group : String} {key : Nat} {was s s' : Stage T C W}

/-! ## What lasts -/

/-- What the clock of a group was made with. -/
def terms? (s : Stage T C W) (group : String) : Option Terms :=
  (s.timeline? group).map Timeline.terms

/-- The group that a player is in. -/
def groupOf? (s : Stage T C W) (key : Nat) : Option String := (s.players[key]?).map Player.group

/-- Clocks stay in the order in which they were made, and as they were made. Players stay in their
groups. -/
structure Lasting (s s' : Stage T C W) : Prop where
  clocks : s.timelines.map Timeline.id <+: s'.timelines.map Timeline.id
  terms : ∀ group terms, s.terms? group = some terms → s'.terms? group = some terms
  groups : ∀ key group, s.groupOf? key = some group → s'.groupOf? key = some group

namespace Lasting

theorem refl (s : Stage T C W) : Lasting s s :=
  ⟨List.prefix_refl _, fun _ _ h => h, fun _ _ h => h⟩

theorem trans {s'' : Stage T C W} (h : Lasting s s') (h' : Lasting s' s'') : Lasting s s'' :=
  ⟨h.clocks.trans h'.clocks, fun group terms ht => h'.terms group terms (h.terms group terms ht),
    fun key group hg => h'.groups key group (h.groups key group hg)⟩

/-- The clock that was made first stays the first. -/
theorem defaultGroup (h : Lasting s s') (hfirst : s.defaultGroup = some group) :
    s'.defaultGroup = some group := by
  obtain ⟨later, hlater⟩ := h.clocks
  unfold Stage.defaultGroup at hfirst ⊢
  rw [← List.head?_map] at hfirst ⊢
  rw [← hlater, List.head?_append, hfirst, Option.some_or]

theorem modifyTimeline (s : Stage T C W) {f : Timeline T (Subscriber C) → Timeline T (Subscriber C)}
    (hid : ∀ tl, tl.id = group → (f tl).id = group)
    (hterms : ∀ tl, s.timeline? group = some tl → (f tl).terms = tl.terms) :
    Lasting s (s.modifyTimeline group f) := by
  refine ⟨?_, fun other terms ht => ?_, fun _ _ h => h⟩
  · have hsame : (s.modifyTimeline group f).timelines.map Timeline.id =
        s.timelines.map Timeline.id := by
      simp only [Stage.modifyTimeline, List.map_map]
      refine List.map_congr_left fun tl _ => ?_
      simp only [Function.comp]
      split
      · rename_i heq
        exact (hid tl (eq_of_beq heq)).trans (eq_of_beq heq).symm
      · rfl
    exact hsame ▸ List.prefix_refl _
  · exact (map_modifyTimeline s hid hterms other).trans ht

theorem modifyPlayer (s : Stage T C W) (key : Nat) {f : Player T C → Player T C}
    (hf : ∀ p, (f p).group = p.group) : Lasting s (s.modifyPlayer key f) := by
  refine ⟨List.prefix_refl _, fun _ _ h => h, fun other group h => ?_⟩
  by_cases hother : other = key
  · subst hother
    rw [groupOf?, players_modifyPlayer, Option.map_map]
    obtain ⟨p, hp, rfl⟩ := Option.map_eq_some_iff.mp h
    rw [hp]
    exact congrArg some (hf p)
  · rw [groupOf?, Stage.modifyPlayer, List.getElem?_modify_ne _ _ (Ne.symm hother)]
    exact h

/-- Clocks that are made come last. -/
theorem append (s : Stage T C W) (tl : Timeline T (Subscriber C)) :
    Lasting s { s with timelines := s.timelines ++ [tl] } := by
  refine ⟨⟨[tl.id], by simp⟩, fun other terms ht => ?_, fun _ _ h => h⟩
  obtain ⟨tl', htl', rfl⟩ := Option.map_eq_some_iff.mp ht
  rw [terms?, timeline?_append, htl']
  rfl

end Lasting

theorem Unmoved.refl (s : Stage T C W) : Unmoved s s := ⟨fun _ _ _ h => h, fun _ _ _ h => .inl h⟩

theorem Unmoved.trans {s'' : Stage T C W} (h : Unmoved s s') (h' : Unmoved s' s'') :
    Unmoved s s'' := by
  refine ⟨fun key c m hs => h'.stays key c m (h.stays key c m hs), fun key c m hs => ?_⟩
  rcases h'.fresh key c m hs with hs | hm
  · exact h.fresh key c m hs
  · exact .inr hm

theorem Unmoved.modifyPlayer (s : Stage T C W) (key : Nat) {f : Player T C → Player T C}
    (hf : ∀ p, (f p).composition = p.composition ∧ (f p).memory = p.memory) :
    Unmoved s (s.modifyPlayer key f) := by
  have hsame (other : Nat) (c : Composition T) (m : Memory) :
      Recalls other c m (s.modifyPlayer key f) ↔ Recalls other c m s := by
    unfold Recalls
    by_cases hother : other = key
    · subst hother
      rw [players_modifyPlayer]
      simp [(hf _).1, (hf _).2]
    · rw [Stage.modifyPlayer, List.getElem?_modify_ne _ _ (Ne.symm hother)]
  exact ⟨fun other c m => (hsame other c m).mpr, fun other c m h => .inl ((hsame other c m).mp h)⟩

/-! ## Visits -/

/-- As far as clocks and players are concerned, no more than that some are made, mounted and
unmounted. -/
structure Visited (s s' : Stage T C W) : Prop where
  unmoved : Unmoved s s'
  lasts : Lasting s s'

theorem Visited.refl (s : Stage T C W) : Visited s s := ⟨.refl s, .refl s⟩

theorem Visited.trans {s'' : Stage T C W} (h : Visited s s') (h' : Visited s' s'') :
    Visited s s'' :=
  ⟨h.unmoved.trans h'.unmoved, h.lasts.trans h'.lasts⟩

/-- What is but a visit wherever it starts leaves a visit a visit. -/
theorem keeps_visited {α : Type} {act : Action T C W α} (h : ∀ s, Visited s (after act s)) :
    Keeps (Visited was) act := fun s hs => hs.trans (h s)

theorem visited_modifyTimeline (s : Stage T C W)
    {f : Timeline T (Subscriber C) → Timeline T (Subscriber C)}
    (hid : ∀ tl, tl.id = group → (f tl).id = group)
    (hterms : ∀ tl, s.timeline? group = some tl → (f tl).terms = tl.terms) :
    Visited s (s.modifyTimeline group f) :=
  ⟨⟨fun _ _ _ h => h, fun _ _ _ h => .inl h⟩, .modifyTimeline s hid hterms⟩

theorem visited_modifyPlayer (s : Stage T C W) (key : Nat) {f : Player T C → Player T C}
    (hf : ∀ p, (f p).composition = p.composition ∧ (f p).memory = p.memory)
    (hgroup : ∀ p, (f p).group = p.group) : Visited s (s.modifyPlayer key f) :=
  ⟨.modifyPlayer s key hf, .modifyPlayer s key hgroup⟩

theorem steady_visited (was : Stage T C W) : Steady (Visited was) where
  source _ _ h := h.trans ⟨⟨fun _ _ _ h => h, fun _ _ _ h => .inl h⟩, List.prefix_refl _,
    fun _ _ h => h, fun _ _ h => h⟩
  clock s _ _ hid _ hterms h := h.trans (visited_modifyTimeline s hid hterms)

theorem hospitable_visited [TimeScalar T] (was : Stage T C W) : Hospitable (Visited was) where
  toCalm := (steady_visited was).calm
  seats s key f hf h := by
    refine h.trans (visited_modifyPlayer s key (fun p => ?_) fun p => ?_)
    · rw [hf p]
      exact ⟨rfl, rfl⟩
    · rw [hf p]
  tickets s group f hf h := by
    refine h.trans (visited_modifyTimeline s (fun tl hid => ?_) fun tl _ => ?_)
    · rw [hf tl]
      exact hid
    · rw [hf tl]
      rfl
  made s group settings tl hnone hcreate h :=
    h.trans ⟨⟨fun _ _ _ h => h, fun _ _ _ h => .inl h⟩, .append s tl⟩

variable [DecidableEq C] [TimeScalar T] {react : React T C W}

/-- Callbacks make, mount and unmount players at most. They may fail. -/
structure Guests (react : React T C W) : Prop where
  books : ∀ c notice, Keeps Booked (react c notice)
  visits : ∀ c notice s, Visited s (after (react c notice) s)

namespace Guests

variable (h : Guests react)
include h

theorem arrive (key : Nat) (p : Player T C) (s : Stage T C W) :
    Visited s (after (Stage.arrive react key p) s) :=
  (hospitable_visited s).arrive (fun c notice => keeps_visited (h.visits c notice)) key p s
    (.refl s)

theorem mount (key : Nat) (s : Stage T C W) : Visited s (after (Stage.mount react key) s) :=
  (hospitable_visited s).mount (fun c notice => keeps_visited (h.visits c notice)) key s (.refl s)

end Guests

theorem visited_unmount (key : Nat) (s : Stage T C W) : Visited s (after (unmount key) s) :=
  (hospitable_visited s).unmount key s (.refl s)

/-! ## Sessions -/

/-- Players are mounted and unmounted and clocks tick, in any order, and anything else may happen
that is but a visit. -/
inductive Session (react : React T C W) (s : Stage T C W) : Stage T C W → Prop
  | start : Session react s s
  | mount {s₁ : Stage T C W} (run : Session react s s₁) (key : Nat) :
      Session react s (after (Stage.mount react key) s₁)
  | unmount {s₁ : Stage T C W} (run : Session react s s₁) (key : Nat) :
      Session react s (after (Stage.unmount key) s₁)
  | tick {s₁ : Stage T C W} (run : Session react s s₁) (group : String) (now : T) :
      Session react s (after (Stage.tick (hear react) group now) s₁)
  | aside {s₁ s₂ : Stage T C W} (run : Session react s s₁) (visited : Visited s₁ s₂)
      (books : s₁.Booked → s₂.Booked) : Session react s s₂

/-- Players have the tickets that go with their seats, and remember only what is in their
compositions. -/
structure Proper (s : Stage T C W) : Prop where
  booked : s.Booked
  fitting : Fitting [] s s

namespace Guests

variable (h : Guests react)
include h

/-- What a visit does not change is not changed while subscribers are told the time, except for what
players remember. -/
theorem keeps_lasting (was : Stage T C W) (subscriber : Subscriber C) (time : T) :
    Keeps (Lasting was) (hear react subscriber time) := by
  have hsheltered : Sheltered react (Lasting was) :=
    ⟨fun c notice s hs => hs.trans (h.visits c notice s).lasts,
      fun key _ hf s hs => hs.trans (.modifyPlayer s key fun p => (hf p).2)⟩
  exact hsheltered.hear subscriber time

theorem keeps_booked (subscriber : Subscriber C) (time : T) :
    Keeps Booked (hear react subscriber time) := by
  have hsheltered : Sheltered react Booked :=
    ⟨h.books, fun key _ hf s hs => hs.of_same (.modifyPlayer s key hf)⟩
  exact hsheltered.hear subscriber time

theorem keeps_fitting (was : Stage T C W) (subscriber : Subscriber C) (time : T) :
    Keeps (Fitting [] was) (hear react subscriber time) := by
  cases subscriber with
  | player key =>
      have htick : Errs (fun _ => True) (Fitting [] was) (handleTick react key time) :=
        errs_tick (fun _ => trivial) fun c notice was s hs =>
          ⟨hs.unmoved (h.visits c notice s).unmoved, fun _ _ _ => trivial⟩
      exact htick.keeps
  | call c => exact fun s hs => hs.unmoved (h.visits c _ s).unmoved

theorem tick (group : String) (now : T) (hs : Proper s) :
    Proper (after (Stage.tick (hear react) group now) s) ∧
      Lasting s (after (Stage.tick (hear react) group now) s) := by
  have hfitting : Steady (Fitting [] s : Stage T C W → Prop) :=
    ⟨fun _ _ h => ⟨h.fits, h.plays⟩, fun _ _ _ _ _ _ h => ⟨h.fits, h.plays⟩⟩
  have hlasting : Steady (Lasting s) :=
    ⟨fun _ _ h => ⟨h.clocks, h.terms, h.groups⟩, fun s' _ _ hid _ hterms h =>
      h.trans (.modifyTimeline s' hid hterms)⟩
  have hbooked : Steady (Booked : Stage T C W → Prop) := booked_clockless.steady
  refine ⟨⟨?_, ?_⟩, ?_⟩
  · exact hbooked.tick h.keeps_booked group now s hs.booked
  · exact (hfitting.tick (h.keeps_fitting s) group now s hs.fitting).refl []
  · exact hlasting.tick (h.keeps_lasting s) group now s (.refl s)

theorem session (hs : Proper s) (hrun : Session react s s') : Proper s' ∧ Lasting s s' := by
  have hvisit {s₁ s₂ : Stage T C W} (h₁ : Proper s₁ ∧ Lasting s s₁) (hvisited : Visited s₁ s₂)
      (hbooked : s₂.Booked) : Proper s₂ ∧ Lasting s s₂ :=
    ⟨⟨hbooked, (h₁.1.fitting.unmoved hvisited.unmoved).refl []⟩, h₁.2.trans hvisited.lasts⟩
  induction hrun with
  | start => exact ⟨hs, .refl s⟩
  | mount _ key ih => exact hvisit ih (h.mount key _) (Booked.mount h.books key _ ih.1.booked)
  | unmount _ key ih => exact hvisit ih (visited_unmount key _) (Booked.unmount key _ ih.1.booked)
  | tick _ group now ih =>
      obtain ⟨hproper, hlasts⟩ := h.tick group now ih.1
      exact ⟨hproper, ih.2.trans hlasts⟩
  | aside _ hvisited hbooks ih => exact hvisit ih hvisited (hbooks ih.1.booked)

end Guests

end Cuesheet.Stage
