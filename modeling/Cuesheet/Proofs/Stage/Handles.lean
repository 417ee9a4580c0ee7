import Cuesheet.Proofs.Stage.Closing
import Cuesheet.Proofs.Stage.Courses
import Cuesheet.Proofs.Stage.Hearing

/-!
# Handles and what they cancel

Whoever registers a function with a clock, a player or a document gets a handle that cancels the
registration. The handle remembers the function only, and what it does is to remove the function
once from those that are there. Where no function is registered twice this cancels the registration
that the handle came from, and nothing when the handle is called again (`held_eq_standing`). Where
one is, its handle called twice cancels two registrations (`exists_cancelled_twice`).

So those who are told a tick, an event or an edit are those whose handles were not called, whatever
handles are called, exactly if no function is registered twice (`handles_own_iff`).
-/

namespace Cuesheet

/-- What is done about registrations: a function is registered, or a handle is called. Handles are
numbered in the order in which they are returned. -/
inductive Handling (F : Type) where
  | register (f : F)
  | cancel (handle : Nat)

namespace Handling

variable {F : Type}

/-- The functions that are registered, in order: each handle stands for one of them. -/
def registered : List (Handling F) → List F
  | [] => []
  | .register f :: rest => f :: registered rest
  | .cancel _ :: rest => registered rest

/-- The registrations that are left of some, each with the number of its handle, if a handle cancels
the registration that it came from. -/
def standingFrom (next : Nat) (live : List (F × Nat)) : List (Handling F) → List (F × Nat)
  | [] => live
  | .register f :: rest => standingFrom (next + 1) (live ++ [(f, next)]) rest
  | .cancel handle :: rest => standingFrom next (live.filter (·.2 != handle)) rest

/-- The functions whose own handles have not been called, once for each registration. -/
def standing (ops : List (Handling F)) : List F := (standingFrom 0 [] ops).map (·.1)

theorem registered_map (fns : List F) (ops : List (Handling F)) :
    registered (fns.map .register ++ ops) = fns ++ registered ops := by
  induction fns with
  | nil => rfl
  | cons f rest ih => rw [List.map_cons, List.cons_append, registered, ih, List.cons_append]

theorem standingFrom_map (fns : List F) (ops : List (Handling F)) :
    ∀ (next : Nat) (live : List (F × Nat)), standingFrom next live (fns.map .register ++ ops) =
      standingFrom (next + fns.length) (live ++ fns.zipIdx next) ops := by
  induction fns with
  | nil => exact fun next live => by rw [List.zipIdx_nil, List.append_nil]; rfl
  | cons f rest ih =>
      intro next live
      rw [List.map_cons, List.cons_append, standingFrom, ih, List.append_assoc,
        List.length_cons, Nat.add_right_comm, Nat.add_assoc]
      rfl

/-- Registrations with other numbers are left alone. -/
theorem filter_zipIdx_ne {fns : List F} {next handle : Nat}
    (h : handle < next ∨ next + fns.length ≤ handle) :
    (fns.zipIdx next).filter (·.2 != handle) = fns.zipIdx next := by
  refine List.filter_eq_self.mpr fun e he => bne_iff_ne.mpr ?_
  obtain ⟨hlow, hhigh, -⟩ := List.mem_zipIdx he
  omega

variable [BEq F]

/-- The functions that are left of some, if a handle removes the function that it remembers. Given
are those that were registered so far. -/
def heldFrom (known held : List F) : List (Handling F) → List F
  | [] => held
  | .register f :: rest => heldFrom (known ++ [f]) (held ++ [f]) rest
  | .cancel handle :: rest =>
    match known[handle]? with
    | none => heldFrom known held rest
    | some f => heldFrom known (held.erase f) rest

/-- The functions that are still there. -/
def held (ops : List (Handling F)) : List F := heldFrom [] [] ops

theorem heldFrom_map (fns : List F) (ops : List (Handling F)) : ∀ known held : List F,
    heldFrom known held (fns.map .register ++ ops) = heldFrom (known ++ fns) (held ++ fns) ops := by
  induction fns with
  | nil => exact fun known held => by rw [List.append_nil, List.append_nil]; rfl
  | cons f rest ih =>
      intro known held
      rw [List.map_cons, List.cons_append, heldFrom, ih, List.append_assoc, List.append_assoc]
      rfl

/-! ## Functions that are registered once -/

variable [LawfulBEq F]

/-- To remove a function removes the registration of its handle, if no other registration has the
same function. -/
theorem erase_map_fst {known : List F} {live : List (F × Nat)} {handle : Nat} {f : F}
    (hnodup : known.Nodup) (hknown : ∀ e ∈ live, known[e.2]? = some e.1)
    (hlive : (live.map (·.1)).Nodup) (hf : known[handle]? = some f) :
    (live.map (·.1)).erase f = (live.filter (·.2 != handle)).map (·.1) := by
  rw [hlive.erase_eq_filter, List.filter_map]
  refine congrArg _ (List.filter_congr fun e he => ?_)
  have hsame : e.1 = f ↔ e.2 = handle := by
    constructor
    · rintro rfl
      exact (List.getElem?_inj (List.getElem?_eq_some_iff.mp (hknown e he)).1 hnodup).mp
        ((hknown e he).trans hf.symm)
    · rintro rfl
      exact Option.some.inj ((hknown e he).symm.trans hf)
  rw [Function.comp_apply, Bool.eq_iff_iff, bne_iff_ne, bne_iff_ne]
  exact not_congr hsame

theorem heldFrom_eq (ops : List (Handling F)) : ∀ (known : List F) (live : List (F × Nat)),
    (known ++ registered ops).Nodup → (∀ e ∈ live, known[e.2]? = some e.1) →
      (live.map (·.1)).Nodup →
        heldFrom known (live.map (·.1)) ops = (standingFrom known.length live ops).map (·.1) := by
  induction ops with
  | nil => exact fun _ _ _ _ _ => rfl
  | cons op rest ih =>
      intro known live hnodup hknown hlive
      cases op with
      | register f =>
          have hnodup' : ((known ++ [f]) ++ registered rest).Nodup := by
            rw [List.append_assoc]
            exact hnodup
          have hfresh : f ∉ known := fun hmem =>
            (List.nodup_append.mp hnodup).2.2 f hmem f List.mem_cons_self rfl
          rw [heldFrom, standingFrom]
          have hmap : live.map (·.1) ++ [f] = (live ++ [(f, known.length)]).map (·.1) := by
            rw [List.map_append, List.map_singleton]
          rw [hmap, ← List.length_singleton (a := f), ← List.length_append]
          refine ih _ _ hnodup' (fun e he => ?_) ?_
          · rcases List.mem_append.mp he with he | he
            · have hlt := (List.getElem?_eq_some_iff.mp (hknown e he)).1
              rw [List.getElem?_append_left hlt]
              exact hknown e he
            · obtain rfl := List.mem_singleton.mp he
              exact List.getElem?_concat_length
          · rw [← hmap]
            refine List.nodup_append.mpr ⟨hlive, List.nodup_singleton f, ?_⟩
            rintro _ hg _ hf rfl
            obtain ⟨e, he, rfl⟩ := List.mem_map.mp hg
            refine hfresh ?_
            rw [← List.mem_singleton.mp hf]
            exact List.mem_of_getElem? (hknown e he)
      | cancel handle =>
          rw [heldFrom, standingFrom]
          have hknown' : ∀ e ∈ live.filter (·.2 != handle), known[e.2]? = some e.1 :=
            fun e he => hknown e (List.mem_filter.mp he).1
          have hlive' : ((live.filter (·.2 != handle)).map (·.1)).Nodup :=
            hlive.sublist (List.filter_sublist.map _)
          cases hf : known[handle]? with
          | some f =>
              dsimp only
              rw [erase_map_fst (List.nodup_append.mp hnodup).1 hknown hlive hf]
              exact ih _ _ hnodup hknown' hlive'
          | none =>
              -- the handle has not been returned yet
              have hall : live.filter (·.2 != handle) = live := by
                refine List.filter_eq_self.mpr fun e he => bne_iff_ne.mpr ?_
                rintro rfl
                rw [hknown e he] at hf
                cases hf
              rw [hall]
              exact ih _ _ hnodup hknown hlive

theorem held_eq_standing {ops : List (Handling F)} (h : (registered ops).Nodup) :
    held ops = standing ops :=
  heldFrom_eq ops [] [] (by rwa [List.nil_append]) (by simp) List.nodup_nil

/-! ## Functions that are registered twice -/

/-- Where a function is registered twice, its handle can take away more than its own
registration. -/
theorem exists_cancelled_twice {fns : List F} (h : ¬ fns.Nodup) :
    ∃ ops f, registered ops = fns ∧ (held ops).count f < (standing ops).count f := by
  obtain ⟨f, htwice⟩ : ∃ f, 1 < fns.count f := by
    by_contra hall
    exact h (List.nodup_iff_count_le_one.mpr fun f => not_lt.mp fun hf => hall ⟨f, hf⟩)
  obtain ⟨front, back, rfl⟩ := List.append_of_mem (List.count_pos_iff.mp (Nat.zero_lt_of_lt htwice))
  have hf : (front ++ f :: back)[front.length]? = some f := by simp
  refine ⟨(front ++ f :: back).map .register ++ [.cancel front.length, .cancel front.length], f,
    ?_, ?_⟩
  · rw [registered_map]
    simp [registered]
  have hheld : held ((front ++ f :: back).map .register ++
      [.cancel front.length, .cancel front.length]) =
        ((front ++ f :: back).erase f).erase f := by
    rw [held, heldFrom_map, List.nil_append]
    simp only [heldFrom, hf]
  have hstanding : standing ((front ++ f :: back).map .register ++
      [.cancel front.length, .cancel front.length]) = front ++ back := by
    rw [standing, standingFrom_map, List.nil_append]
    simp only [standingFrom, List.filter_filter, Bool.and_self]
    rw [List.zipIdx_append, List.zipIdx_cons, List.filter_append, List.filter_cons,
      filter_zipIdx_ne (.inr (by simp)), filter_zipIdx_ne (.inl (by simp))]
    simp
  rw [hheld, hstanding]
  simp only [List.count_erase_self, List.count_append, List.count_cons_self] at htwice ⊢
  omega

end Handling

/-! ## Registrations on a stage -/

namespace Stage

open Handling (registered held heldFrom standing)

variable {T C W F ι : Type}

/-- Registers functions and calls handles, by adding a function and by removing one. Given are the
functions that were registered so far; a handle that was not returned yet cannot be called. -/
def carryOut (add remove : F → Action T C W Unit) (known : List F) :
    List (Handling F) → Action T C W Unit
  | [] => pure ()
  | .register f :: rest => do
    add f
    carryOut add remove (known ++ [f]) rest
  | .cancel handle :: rest => do
    match known[handle]? with
    | none => pure ()
    | some f => remove f
    carryOut add remove known rest

/-- Functions that are there are added at the end, and removed once. -/
structure Lists [BEq F] (add remove : F → Action T C W Unit)
    (There : List F → Stage T C W → Prop) : Prop where
  added : ∀ {l s} f, There l s → ∃ s', add f s = .ok () s' ∧ There (l ++ [f]) s'
  removed : ∀ {l s} f, There l s → ∃ s', remove f s = .ok () s' ∧ There (l.erase f) s'

theorem Lists.carryOut [BEq F] {add remove : F → Action T C W Unit}
    {There : List F → Stage T C W → Prop} (h : Lists add remove There) (ops : List (Handling F)) :
    ∀ (known : List F) {l : List F} {s : Stage T C W}, There l s → ∃ s',
      carryOut add remove known ops s = .ok () s' ∧ There (heldFrom known l ops) s' := by
  induction ops with
  | nil => exact fun _ _ _ hs => ⟨_, rfl, hs⟩
  | cons op rest ih =>
      intro known l s hs
      cases op with
      | register f =>
          obtain ⟨s₁, hadd, hs₁⟩ := h.added f hs
          obtain ⟨s', hrest, hs'⟩ := ih (known ++ [f]) hs₁
          exact ⟨s', (bind_ok hadd _).trans hrest, hs'⟩
      | cancel handle =>
          cases hf : known[handle]? with
          | none =>
              obtain ⟨s', hrest, hs'⟩ := ih known hs
              refine ⟨s', ?_, ?_⟩
              · rw [Stage.carryOut, hf]
                exact (bind_ok rfl _).trans hrest
              · rw [heldFrom, hf]
                exact hs'
          | some f =>
              obtain ⟨s₁, hremove, hs₁⟩ := h.removed f hs
              obtain ⟨s', hrest, hs'⟩ := ih known hs₁
              refine ⟨s', ?_, ?_⟩
              · rw [Stage.carryOut, hf]
                exact (bind_ok hremove _).trans hrest
              · rw [heldFrom, hf]
                exact hs'

/-! ## Who is told -/

/-- Callbacks that write down that they are called. Handlers of the markup are no functions. -/
def signing : React T C (List C) := fun c notice =>
  match notice with
  | .handler _ => pure ()
  | _ => modify fun s => { s with outside := s.outside ++ [c] }

/-- Whatever is done about registrations of some functions, those are told whose own handles were
not called, once for each registration and in order. -/
def OwnOnly (add remove : F → Action T C (List C) Unit) (deliver : ι → Action T C (List C) Unit)
    (told : ι → List F → List C) (fns : List F) (s : Stage T C (List C)) : Prop :=
  ∀ ops, registered ops = fns → ∃ s', carryOut add remove [] ops s = .ok () s' ∧
    ∀ i, (after (deliver i) s').outside = s.outside ++ told i (standing ops)

theorem Lists.ownOnly_iff [BEq F] [LawfulBEq F] {add remove : F → Action T C (List C) Unit}
    {There : List F → Stage T C (List C) → Prop} {deliver : ι → Action T C (List C) Unit}
    {told : ι → List F → List C} {s : Stage T C (List C)} (h : Lists add remove There)
    (hnone : There [] s)
    (htold : ∀ {l s'} i, There l s' → (after (deliver i) s').outside = s.outside ++ told i l)
    (hcount : ∀ {f l l'}, (∀ i, told i l = told i l') → l.count f = l'.count f) (fns : List F) :
    OwnOnly add remove deliver told fns s ↔ fns.Nodup := by
  constructor
  · intro hown
    by_contra htwice
    obtain ⟨ops, f, hops, hlt⟩ := Handling.exists_cancelled_twice htwice
    obtain ⟨s', hrun, hs'⟩ := h.carryOut ops [] hnone
    obtain ⟨s'', hrun', hdelivered⟩ := hown ops hops
    obtain ⟨-, rfl⟩ := EStateM.Result.ok.inj (hrun.symm.trans hrun')
    have hsame : ∀ i, told i (held ops) = told i (standing ops) := fun i =>
      List.append_cancel_left ((htold i hs').symm.trans (hdelivered i))
    exact absurd (hcount hsame) hlt.ne
  · rintro hnodup ops rfl
    obtain ⟨s', hrun, hs'⟩ := h.carryOut ops [] hnone
    refine ⟨s', hrun, fun i => ?_⟩
    rw [htold i hs', ← Handling.held_eq_standing hnodup]
    rfl

/-- Callbacks that are called one after the other write down who they are in that order. -/
theorem signing_each (each : List C → Action T C (List C) Unit)
    (act : C → Action T C (List C) Unit) (hnil : each [] = pure ())
    (hcons : ∀ c rest, each (c :: rest) = do act c; each rest)
    (hact : ∀ c s, act c s = .ok () { s with outside := s.outside ++ [c] }) (l : List C) :
    ∀ s, each l s = .ok () { s with outside := s.outside ++ l } := by
  induction l with
  | nil =>
      intro s
      rw [hnil, List.append_nil]
      rfl
  | cons c rest ih =>
      intro s
      rw [hcons, bind_ok (hact c s), ih, List.append_assoc]
      rfl

variable [DecidableEq C] {s : Stage T C (List C)} {group : String} {key document : Nat}

/-! ## Clocks -/

/-- The stage on which given functions subscribe to a clock. -/
def Subscribed (group : String) (tl : Timeline T (Subscriber C)) (outside : W) (fns : List C)
    (s : Stage T C W) : Prop :=
  s.timeline? group = some { tl with subscribers := fns.map .call } ∧ s.outside = outside

theorem subscribed_lists (group : String) (tl : Timeline T (Subscriber C)) (outside : W) :
    Lists (fun c => subscribe group (.call c)) (fun c => unsubscribe group (.call c))
      (Subscribed group tl outside) where
  added := by
    rintro l s f ⟨htl, hout⟩
    refine ⟨_, rfl, ?_, hout⟩
    rw [timeline?_modifyTimeline s (by exact fun tl hid => hid), if_pos rfl, htl, List.map_append]
    rfl
  removed := by
    rintro l s f ⟨htl, hout⟩
    have herase : (l.erase f).map Subscriber.call = (l.map Subscriber.call).erase (.call f) :=
      List.map_erase (f := Subscriber.call) (fun _ _ => Subscriber.call.inj) l
    refine ⟨_, rfl, ?_, hout⟩
    rw [timeline?_modifyTimeline s (by exact fun tl hid => hid), if_pos rfl, htl, herase]
    rfl

omit [DecidableEq C] in
theorem tick_signing [TimeScalar T] {tl : Timeline T (Subscriber C)} {now : T} {frame : Int}
    {l : List C} (h : s.timeline? group = some { tl with subscribers := l.map .call })
    (hrun : tl.running = true) (hframe : (tl.moved now).frameNumber = .ok frame) :
    (after (tick (hear signing) group now) s).outside = s.outside ++ l := by
  have hsame : (Timeline.moved { tl with subscribers := l.map Subscriber.call } now).frameNumber =
      .ok frame := hframe
  have heach := signing_each (T := T)
    (fun l => tick.hearEach (hear signing) (tl.moved now).time (l.map .call))
    (fun c => hear signing (.call c) (tl.moved now).time) rfl (fun _ _ => rfl) (fun _ _ => rfl) l
  have hcalm : Calm fun s' : Stage T C (List C) => s'.outside = s.outside ++ l :=
    ⟨fun _ _ h => h, fun _ _ _ _ h => h⟩
  have htick : after (tick (hear signing) group now) s = after (ensuring
      (tick.hearEach (hear signing) (tl.moved now).time (l.map .call)) (renew group))
        (s.moving group { tl with subscribers := l.map .call } now frame) := by
    rw [after, tick_running h hrun, hsame]
    rfl
  rw [htick, after_ensuring]
  refine hcalm.renew group _ ?_
  rw [after, heach]
  rfl

/-! ## Players -/

/-- The stage on which given functions listen to kinds of events of a player. -/
def Listened (key : Nat) (p : Player T C) (outside : W) (fns : List (EventKind × C))
    (s : Stage T C W) : Prop :=
  s.players[key]? = some { p with listeners := fns } ∧ s.outside = outside

theorem listened_lists (key : Nat) (p : Player T C) (outside : W) :
    Lists (fun f => updatePlayer key (·.listen f.1 f.2))
      (fun f => updatePlayer key (·.unlisten f.1 f.2)) (Listened key p outside) where
  added := by
    rintro l s f ⟨hp, hout⟩
    refine ⟨_, rfl, ?_, hout⟩
    rw [players_modifyPlayer, hp]
    rfl
  removed := by
    rintro l s f ⟨hp, hout⟩
    refine ⟨_, rfl, ?_, hout⟩
    rw [players_modifyPlayer, hp]
    rfl

/-- The functions that listen to the kind of an event. -/
def listenersAmong (event : PlayerEvent T) (fns : List (EventKind × C)) : List C :=
  fns.filterMap fun f => if f.1 == event.kind then some f.2 else none

omit [DecidableEq C] in
theorem dispatch_signing {p : Player T C} {fns : List (EventKind × C)}
    (h : s.players[key]? = some { p with listeners := fns }) (event : PlayerEvent T) :
    (after (dispatch signing key event) s).outside = s.outside ++ listenersAmong event fns := by
  have heach := signing_each (T := T) (tellAll signing (.event event))
    (fun c => signing c (.event event)) rfl (fun _ _ => rfl) (fun _ _ => rfl)
    (listenersAmong event fns) s
  have hhandlers : Keeps (fun s' => s'.outside = s.outside ++ listenersAmong event fns)
      (runHandlers signing key event) :=
    .runHandlers (fun hook invocation => .pure ()) key event
  rw [after, dispatch, withPlayer_some h]
  have htold : tellAll signing (.event event)
      (Player.listenersTo { p with listeners := fns } event.kind) s = _ := heach
  rw [bind_ok htold]
  exact hhandlers _ rfl

theorem count_listenersAmong (event : PlayerEvent T) (c : C) (fns : List (EventKind × C)) :
    (listenersAmong event fns).count c = fns.count (event.kind, c) := by
  induction fns with
  | nil => rfl
  | cons f rest ih =>
      obtain ⟨kind, c'⟩ := f
      rw [List.count_cons, ← ih]
      by_cases hkind : kind = event.kind
      · simp [listenersAmong, hkind, List.count_cons]
      · simp [listenersAmong, hkind]

/-- There is an event of every kind. -/
theorem exists_event [TimeScalar T] (kind : EventKind) :
    ∃ event : PlayerEvent T, event.kind = kind := by
  cases kind with
  | timelineTick => exact ⟨⟨.tick (.int 0), TimeScalar.zero, 0⟩, rfl⟩
  | sceneStart => exact ⟨⟨.sceneStart "", TimeScalar.zero, 0⟩, rfl⟩
  | sceneEnd => exact ⟨⟨.sceneEnd "", TimeScalar.zero, 0⟩, rfl⟩
  | cueStart => exact ⟨⟨.cueStart "", TimeScalar.zero, 0⟩, rfl⟩
  | cueEnd => exact ⟨⟨.cueEnd "", TimeScalar.zero, 0⟩, rfl⟩
  | visibilityChange => exact ⟨⟨.visibility "" "" true, TimeScalar.zero, 0⟩, rfl⟩

/-! ## Documents -/

/-- The stage on which given functions observe a document. -/
def Observed (document : Nat) (d : LiveDocument C) (outside : W) (fns : List C)
    (s : Stage T C W) : Prop :=
  s.documents[document]? = some { d with observers := fns.map .call } ∧ s.outside = outside

omit [DecidableEq C] in
theorem documents_modifyDocument (s : Stage T C W) (key : Nat)
    (f : LiveDocument C → LiveDocument C) :
    (s.modifyDocument key f).documents[key]? = (s.documents[key]?).map f := by
  unfold modifyDocument
  rw [List.getElem?_modify_eq]
  rfl

theorem observed_lists (document : Nat) (d : LiveDocument C) (outside : W) :
    Lists (T := T) (fun c => observe document (.call c)) (fun c => disconnect document (.call c))
      (Observed document d outside) where
  added := by
    rintro l s f ⟨hd, hout⟩
    refine ⟨_, rfl, ?_, hout⟩
    rw [documents_modifyDocument, hd, List.map_append]
    rfl
  removed := by
    rintro l s f ⟨hd, hout⟩
    have herase : (l.erase f).map Observer.call = (l.map Observer.call).erase (.call f) :=
      List.map_erase (f := Observer.call) (fun _ _ => Observer.call.inj) l
    refine ⟨_, rfl, ?_, hout⟩
    rw [documents_modifyDocument, hd, herase]
    rfl

omit [DecidableEq C] in
theorem commitEdit_signing [TimeScalar T] {d : LiveDocument C} {fns : List C}
    (h : s.documents[document]? = some { d with observers := fns.map .call })
    (edited : Document × Mutation) :
    (after (commitEdit signing document edited) s).outside = s.outside ++ fns := by
  let stored := s.storeTree document edited.2.kind edited.1.tree
  have hkept : stored.documents = s.documents ∧ stored.outside = s.outside := by
    simp only [stored, storeTree]
    split <;> exact ⟨rfl, rfl⟩
  have heach := signing_each (T := T)
    (fun l => noticeEach signing d.tree edited.2 (l.map .call))
    (fun c => notice signing d.tree edited.2 (.call c)) rfl (fun _ _ => rfl)
    (fun _ _ => rfl) fns stored
  have hd : stored.documents[document]? = some { d with observers := fns.map .call } := by
    rw [hkept.1, h]
  have hannounce : announce signing document edited.2 stored =
      noticeEach signing d.tree edited.2 (fns.map .call) stored := by
    rw [announce, get_bind, hd]
  have hcommit : commitEdit signing document edited s =
      announce signing document edited.2 stored := rfl
  rw [after, hcommit, hannounce, heach, ← hkept.2]
  rfl

/-! ## Handles -/

/-- Those who are told a tick of a clock, an event of a player or an edit of a document are those
whose own handles were not called, whatever handles are called, exactly if no function is
registered twice. -/
theorem handles_own_iff [TimeScalar T] {tl : Timeline T (Subscriber C)} {now : T} {frame : Int}
    {p : Player T C} {d : LiveDocument C} (htl : s.timeline? group = some tl)
    (hclock : tl.subscribers = []) (hrun : tl.running = true)
    (hframe : (tl.moved now).frameNumber = .ok frame) (hp : s.players[key]? = some p)
    (hplayer : p.listeners = []) (hd : s.documents[document]? = some d)
    (hdocument : d.observers = []) (edited : Document × Mutation) :
    (∀ fns : List C, OwnOnly (fun c => subscribe group (.call c))
        (fun c => unsubscribe group (.call c))
        (fun _ : Unit => tick (hear signing) group now) (fun _ l => l) fns s ↔ fns.Nodup) ∧
      (∀ fns : List (EventKind × C), OwnOnly (fun f => updatePlayer key (·.listen f.1 f.2))
        (fun f => updatePlayer key (·.unlisten f.1 f.2))
        (dispatch signing key) listenersAmong fns s ↔ fns.Nodup) ∧
      ∀ fns : List C, OwnOnly (fun c => observe document (.call c))
        (fun c => disconnect document (.call c))
        (fun _ : Unit => commitEdit signing document edited) (fun _ l => l) fns s ↔ fns.Nodup := by
  refine ⟨fun fns => ?_, fun fns => ?_, fun fns => ?_⟩
  · refine (subscribed_lists group tl s.outside).ownOnly_iff ⟨?_, rfl⟩ ?_ ?_ fns
    · rw [htl, List.map_nil, ← hclock]
    · rintro l s' - ⟨htl', hout⟩
      rw [tick_signing htl' hrun hframe, hout]
    · intro f l l' hsame
      rw [hsame ()]
  · refine (listened_lists key p s.outside).ownOnly_iff ⟨?_, rfl⟩ ?_ ?_ fns
    · rw [hp, ← hplayer]
    · rintro l s' event ⟨hp', hout⟩
      rw [dispatch_signing hp' event, hout]
    · rintro ⟨kind, c⟩ l l' hsame
      obtain ⟨event, rfl⟩ := exists_event (T := T) kind
      rw [← count_listenersAmong, ← count_listenersAmong, hsame event]
  · refine (observed_lists document d s.outside).ownOnly_iff ⟨?_, rfl⟩ ?_ ?_ fns
    · rw [hd, List.map_nil, ← hdocument]
    · rintro l s' - ⟨hd', hout⟩
      rw [commitEdit_signing hd' edited, hout]
    · intro f l l' hsame
      rw [hsame ()]

/-- A clock that runs. -/
def ticking : Timeline Rat (Subscriber String) where
  id := "stage"
  fps := .int 30
  mode := .live
  loop := false
  duration := none
  time := 0
  running := true

def unheard : Player Rat String where
  composition := film []
  options := {}
  group := "stage"

def unseen : LiveDocument String where
  tree := 0
  prefixes := []

/-- A clock that runs, a player and a document, and nobody who listens to them. -/
def unattended : Stage Rat String (List String) where
  source := .manual 0 {}
  timelines := [ticking]
  players := [unheard]
  trees := [{ tree := .ofNode { name := "vml" } }]
  documents := [unseen]
  outside := []

/-- The document of the stage with a title. -/
def entitling : Document × Mutation :=
  ({ tree := .ofNode { name := "vml" }, prefixes := [] } : Document).setAttribute
    { name := "vml" } "title" (some "new")

theorem handles_own_unattended :
    OwnOnly (fun c => subscribe "stage" (.call c)) (fun c => unsubscribe "stage" (.call c))
      (fun _ : Unit => tick (hear signing) "stage" 1) (fun _ l => l) ["first", "second"]
      unattended ∧
    OwnOnly (fun f => updatePlayer 0 (·.listen f.1 f.2))
      (fun f => updatePlayer 0 (·.unlisten f.1 f.2)) (dispatch signing 0) listenersAmong
      [(.cueStart, "first"), (.cueEnd, "first")] unattended ∧
    OwnOnly (fun c => observe 0 (.call c)) (fun c => disconnect 0 (.call c))
      (fun _ : Unit => commitEdit signing 0 entitling) (fun _ l => l) ["first", "second"]
      unattended := by
  have hclock : unattended.timeline? "stage" = some ticking := rfl
  have hframe : (ticking.moved 1).frameNumber = .ok 0 := by decide +kernel
  have hplayer : unattended.players[0]? = some unheard := rfl
  have hdocument : unattended.documents[0]? = some unseen := rfl
  obtain ⟨hclock, hplayer, hdocument⟩ :=
    handles_own_iff hclock rfl rfl hframe hplayer rfl hdocument rfl entitling
  exact ⟨(hclock _).mpr (by decide), (hplayer _).mpr (by decide), (hdocument _).mpr (by decide)⟩

/-- A function is registered, another one is, and the first one again. The first handle is called
twice. -/
def twiceCancelled {F : Type} (first second : F) : List (Handling F) :=
  [.register first, .register second, .register first, .cancel 0, .cancel 0]

/-- Two registrations are left whose handles were not called, but only the one between them is
told. -/
theorem handles_own_twice : standing (twiceCancelled "first" "second") = ["second", "first"] ∧
    (after (tick (hear signing) "stage" 1) (after (carryOut (fun c => subscribe "stage" (.call c))
      (fun c => unsubscribe "stage" (.call c)) [] (twiceCancelled "first" "second"))
        unattended)).outside = ["second"] ∧
    (after (dispatch signing 0 ⟨.cueStart "hello", 0, 0⟩) (after (carryOut
      (fun f => updatePlayer 0 (·.listen f.1 f.2)) (fun f => updatePlayer 0 (·.unlisten f.1 f.2)) []
        (twiceCancelled (.cueStart, "first") (.cueStart, "second"))) unattended)).outside =
          ["second"] ∧
    (after (commitEdit signing 0 entitling) (after (carryOut (fun c => observe 0 (.call c))
      (fun c => disconnect 0 (.call c)) [] (twiceCancelled "first" "second"))
        unattended)).outside = ["second"] := by
  refine ⟨rfl, ?_, ?_, ?_⟩ <;> decide +kernel

end Stage

end Cuesheet
