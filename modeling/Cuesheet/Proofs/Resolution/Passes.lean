import Cuesheet.Proofs.Resolution.Confluence
import Cuesheet.Resolution.Composition

/-!
# The passes of a resolution are a schedule

`pass_outcome` says what one pass does: it tries the pending scenes in document order, and if it
resolves none of them, all of them wait. By induction over the passes a resolution ends in a
halted progress, with all scenes (`resolve_ok`) or with those that are reported as unresolved
(`resolve_unresolved`). Compositions of markup have distinct scenes and cues (`compose_distinct`).
-/

namespace Cuesheet

namespace Storyboard

variable {T : Type} [TimeScalar T] {board : Storyboard T} {progress : Progress T}

/-! ## One pass -/

/-- What a pass over some pending scenes comes to. -/
def PassOutcome (board : Storyboard T) (pending : List Nat) (progress : Progress T) :
    Except ResolutionFault (Progress T × List Nat) → Prop
  | .ok (progress', left) =>
    (∃ order, board.Schedule order (.ok progress')) ∧
      left = pending.filter (fun i => (progress'.at? i).isNone) ∧
      (∀ i ∉ pending, progress'.at? i = progress.at? i) ∧
      (left.length < pending.length ∨
        progress' = progress ∧ ∀ i ∈ pending, board.Waits progress i)
  | .error fault => fault.OfScene ∧ ∃ order, board.Schedule order (.error fault)

/-- One pass, by induction on the scenes that it has yet to try. -/
theorem pass_outcome : ∀ {pending : List Nat} {progress : Progress T} {order : List Nat},
    board.Schedule order (.ok progress) → (∀ i ∈ pending, i ∈ progress.pending) →
      pending.Nodup → board.PassOutcome pending progress (board.pass pending progress)
  | [], progress, order, hsched, _, _ =>
      ⟨⟨order, hsched⟩, rfl, fun _ _ => rfl, .inr ⟨rfl, by simp⟩⟩
  | index :: rest, progress, order, hsched, hpend, hnodup => by
      obtain ⟨hnotin, hnodup'⟩ := List.nodup_cons.mp hnodup
      have htried := hsched.tried (hpend index List.mem_cons_self)
      obtain ⟨hlt, hnone⟩ := Progress.mem_pending.mp (hpend index List.mem_cons_self)
      unfold pass
      cases ha : board.attempt progress index with
      | ok s =>
          rw [tryAt_of_ok ha] at htried
          have hpend' : ∀ i ∈ rest, i ∈ Progress.pending (progress.set index (some s)) := by
            intro i hi
            obtain ⟨hil, hin⟩ := Progress.mem_pending.mp (hpend i (List.mem_cons_of_mem _ hi))
            refine Progress.mem_pending.mpr ⟨by rwa [List.length_set], ?_⟩
            rw [Progress.at?_set_ne, hin]
            rintro rfl
            exact hnotin hi
          have ih := pass_outcome htried hpend' hnodup'
          dsimp only
          cases hrest : board.pass rest (progress.set index (some s)) with
          | error fault => rw [hrest] at ih; exact ih
          | ok r =>
              obtain ⟨progress', left⟩ := r
              rw [hrest] at ih
              obtain ⟨hreach, hleft, hsame, -⟩ := ih
              have hat : progress'.at? index = some s := by
                rw [hsame index hnotin, Progress.at?_set_self hlt]
              refine ⟨hreach, ?_, ?_, .inl ?_⟩
              · rw [hleft, List.filter_cons, hat]; rfl
              · intro i hi
                obtain ⟨hne, hir⟩ := not_or.mp (List.mem_cons.not.mp hi)
                rw [hsame i hir, Progress.at?_set_ne (Ne.symm hne)]
              · rw [hleft]
                exact Nat.lt_succ_of_le (List.length_filter_le ..)
      | error stop =>
          cases stop with
          | waiting r =>
              rw [tryAt_of_waits ⟨r, ha⟩] at htried
              have ih := pass_outcome htried
                (fun i hi => hpend i (List.mem_cons_of_mem _ hi)) hnodup'
              dsimp only
              cases hrest : board.pass rest progress with
              | error fault => rw [hrest] at ih; exact ih
              | ok r' =>
                  obtain ⟨progress', left⟩ := r'
                  rw [hrest] at ih
                  obtain ⟨hreach, hleft, hsame, hcases⟩ := ih
                  have hat : progress'.at? index = none := by rw [hsame index hnotin, hnone]
                  refine ⟨hreach, ?_, ?_, ?_⟩
                  · rw [hleft, List.filter_cons, hat]; rfl
                  · intro i hi
                    exact hsame i fun hir => hi (List.mem_cons_of_mem _ hir)
                  · rcases hcases with hlt' | ⟨heq, hwaits⟩
                    · exact .inl (Nat.succ_lt_succ hlt')
                    · refine .inr ⟨heq, fun i hi => ?_⟩
                      rcases List.mem_cons.mp hi with rfl | hi
                      · exact ⟨r, ha⟩
                      · exact hwaits i hi
          | wrong fault =>
              refine ⟨attempt_wrong ha, order ++ [index], ?_⟩
              unfold tryAt at htried
              rwa [ha] at htried
          | fault fault =>
              refine ⟨trivial, order ++ [index], ?_⟩
              unfold tryAt at htried
              rwa [ha] at htried

omit [TimeScalar T] in
/-- After a pass over all pending scenes, what is left is what is pending then. -/
theorem pending_of_pass {progress' : Progress T} {left : List Nat}
    (hlen : progress'.length = progress.length)
    (hsame : ∀ i ∉ progress.pending, progress'.at? i = progress.at? i)
    (hleft : left = progress.pending.filter (fun i => (progress'.at? i).isNone)) :
    left = progress'.pending := by
  rw [hleft, Progress.pending, Progress.pending, hlen, List.filter_filter]
  refine List.filter_congr fun i hi => ?_
  cases hn : progress'.at? i with
  | some s => rfl
  | none =>
      have hmem : i ∈ progress.pending := by
        by_contra hnot
        have hat := hsame i hnot
        rw [hn] at hat
        exact hnot (Progress.mem_pending.mpr ⟨List.mem_range.mp hi, hat.symm⟩)
      rw [(Progress.mem_pending.mp hmem).2]
      rfl

/-! ## All passes -/

/-- What all passes together come to: all scenes in no more passes than there are scenes, a fault
of a scene, or a halted progress whose pending scenes are reported. -/
def PassesOutcome (board : Storyboard T) : Except ResolutionFault (Progress T × Nat) → Prop
  | .ok (progress, count) =>
    (∃ order, board.Schedule order (.ok progress)) ∧ progress.pending = [] ∧
      count ≤ board.scenes.length
  | .error fault =>
    (fault.OfScene ∧ ∃ order, board.Schedule order (.error fault)) ∨
      ∃ order progress, board.Schedule order (.ok progress) ∧ progress.pending ≠ [] ∧
        (∀ i ∈ progress.pending, board.Waits progress i) ∧
        fault = .unresolved (board.idsAt progress.pending)

omit [TimeScalar T] in
theorem pending_nodup (progress : Progress T) : progress.pending.Nodup :=
  List.nodup_range.filter _

theorem length_of_schedule (hd : board.Distinct) {order : List Nat}
    (h : board.Schedule order (.ok progress)) : progress.length = board.scenes.length :=
  (h.consistent hd rfl).of.length

/-- By induction over the passes. What carries it is that a pass that is not the last one takes a
scene from the pending ones, so the limit on passes is out of reach. -/
theorem passes_outcome (hd : board.Distinct) (before : Nat) (pending : List Nat)
    (progress : Progress T) {order : List Nat} (hsched : board.Schedule order (.ok progress))
    (hpend : pending = progress.pending) (hcount : before + pending.length ≤ board.scenes.length) :
    board.PassesOutcome (board.passes before pending progress) := by
  have hpass : ∀ {pending : List Nat} {progress : Progress T} {order : List Nat},
      board.Schedule order (.ok progress) → pending = progress.pending →
        board.PassOutcome pending progress (board.pass pending progress) := by
    rintro pending progress order hsched rfl
    exact pass_outcome hsched (fun i hi => hi) (pending_nodup progress)
  induction before, pending, progress using passes.induct board generalizing order with
  | case1 before pending progress hempty =>
      rw [passes, if_pos hempty]
      rw [List.isEmpty_iff.mp hempty] at hpend
      exact ⟨⟨order, hsched⟩, hpend.symm, Nat.le_of_add_right_le hcount⟩
  | case2 before pending progress hne fault hfault =>
      have hout := hpass hsched hpend
      rw [hfault] at hout
      rw [passes, if_neg hne, hfault]
      exact .inl hout
  | case3 before pending progress hne progress' left hok hlt hlimit =>
      -- the limit is two passes above the number of scenes
      have hleft : before + 1 + left.length ≤ board.scenes.length := by omega
      have hpast : board.scenes.length + 2 < before + 1 :=
        of_decide_eq_true ((Bool.and_eq_true _ _).mp hlimit).2
      omega
  | case4 before pending progress hne progress' left hok hlt hlimit ih =>
      have hout := hpass hsched hpend
      rw [hok] at hout
      obtain ⟨⟨order', hsched'⟩, hleft, hsame, -⟩ := hout
      rw [passes, if_neg hne, hok]
      dsimp only
      rw [dif_pos hlt, if_neg hlimit]
      refine ih hsched' ?_ (by omega)
      rw [hpend] at hleft hsame
      have hlen := (length_of_schedule hd hsched').trans (length_of_schedule hd hsched).symm
      exact pending_of_pass hlen hsame hleft
  | case5 before pending progress hne progress' left hok hlt =>
      have hout := hpass hsched hpend
      rw [hok] at hout
      obtain ⟨⟨order', hsched'⟩, hleft, -, hcases⟩ := hout
      rw [passes, if_neg hne, hok]
      dsimp only
      rw [dif_neg hlt]
      rcases hcases with hlt' | ⟨rfl, hwaits⟩
      · exact absurd hlt' hlt
      · rw [hpend] at hne hwaits hleft
        have hleft' : left = progress'.pending := pending_of_pass rfl (fun _ _ => rfl) hleft
        exact .inr ⟨order', progress', hsched', mt List.isEmpty_iff.mpr hne, hwaits,
          by rw [hleft']⟩

/-! ## Resolutions -/

omit [TimeScalar T] in
theorem pending_start (board : Storyboard T) :
    board.start.pending = List.range board.scenes.length := by
  unfold Progress.pending
  rw [show List.length board.start = _ from List.length_replicate]
  exact List.filter_eq_self.mpr fun i _ => by rw [start_at?]; rfl

omit [TimeScalar T] in
/-- A progress without pending scenes is the list of its scenes. -/
theorem eq_map_some_of_pending (h : progress.pending = []) :
    progress = progress.scenes.map some := by
  have hsome : ∀ o ∈ progress, ∃ s, o = some s := by
    intro o ho
    obtain ⟨i, hlt, rfl⟩ := List.mem_iff_getElem.mp ho
    cases hi : progress[i] with
    | some s => exact ⟨s, rfl⟩
    | none =>
        have hat : progress.at? i = none := by
          rw [Progress.at?, List.getElem?_eq_getElem hlt, hi]; rfl
        have hmem := Progress.mem_pending.mpr ⟨hlt, hat⟩
        rw [h] at hmem
        cases hmem
  unfold Progress.scenes
  clear h
  induction progress with
  | nil => rfl
  | cons o rest ih =>
      obtain ⟨s, rfl⟩ := hsome o List.mem_cons_self
      have hrest := ih fun o' ho' => hsome o' (List.mem_cons_of_mem _ ho')
      show some s :: rest = some s :: (rest.filterMap id).map some
      rw [← hrest]

theorem resolve_outcome (hd : board.Distinct) :
    board.PassesOutcome (board.passes 0 (List.range board.scenes.length) board.start) :=
  passes_outcome hd 0 _ _ .start (pending_start board).symm (by simp)

/-- Where a resolution gives scenes, a schedule has resolved all of them. -/
theorem resolve_ok (hd : board.Distinct) {scenes : List (Scene T)}
    (h : board.resolve = .ok scenes) : ∃ order, board.Schedule order (.ok (scenes.map some)) := by
  have hout := resolve_outcome hd
  unfold resolve at h
  cases hp : board.passes 0 (List.range board.scenes.length) board.start with
  | error fault => rw [hp] at h; cases h
  | ok r =>
      rw [hp] at h hout
      cases h
      obtain ⟨⟨order, hsched⟩, hnone, -⟩ := hout
      exact ⟨order, eq_map_some_of_pending hnone ▸ hsched⟩

/-- Where a resolution reports scenes, a schedule has left exactly these, and all of them wait. -/
theorem resolve_unresolved (hd : board.Distinct) {ids : List String}
    (h : board.resolve = .error (.unresolved ids)) :
    ∃ order progress, board.Schedule order (.ok progress) ∧ board.Halted progress ∧
      ids = board.idsAt progress.pending := by
  have hout := resolve_outcome hd
  unfold resolve at h
  cases hp : board.passes 0 (List.range board.scenes.length) board.start with
  | ok r => rw [hp] at h; cases h
  | error fault =>
      rw [hp] at h hout
      cases h
      rcases hout with ⟨hscene, -⟩ | ⟨order, progress, hsched, -, hwaits, hids⟩
      · exact hscene.elim
      · cases hids
        exact ⟨order, progress, hsched, ⟨hsched.consistent hd rfl, hwaits⟩, rfl⟩

/-- Where some schedule resolves all scenes, so does the resolution. -/
theorem resolve_of_schedule (hd : board.Distinct) {scenes : List (Scene T)} {order : List Nat}
    (h : board.Schedule order (.ok (scenes.map some))) : board.resolve = .ok scenes := by
  have hnone : Progress.pending (scenes.map some) = [] := Progress.pending_map_some scenes
  have hhalted : board.Halted (scenes.map some) :=
    ⟨h.consistent hd rfl, by rw [hnone]; exact fun _ => nofun⟩
  have hout := resolve_outcome hd
  unfold resolve
  cases hp : board.passes 0 (List.range board.scenes.length) board.start with
  | ok r =>
      rw [hp] at hout
      obtain ⟨⟨order', hsched⟩, hpending, -⟩ := hout
      have hmax : board.Maximal r.1 := by
        rw [Maximal, hpending]
        exact fun _ => nofun
      show Except.ok r.1.scenes = _
      rw [hhalted.eq_of_maximal hd h hsched hmax, Progress.scenes, List.filterMap_map]
      exact congrArg _ List.filterMap_some
  | error fault =>
      rw [hp] at hout
      rcases hout with ⟨-, order', hsched⟩ | ⟨order', progress, hsched, hpending, hwaits, -⟩
      · obtain ⟨progress, heq, -⟩ := hsched.le_halted hhalted hd
        cases heq
      · -- whoever waits can never be resolved, but here every scene is
        have hmax : board.Maximal progress := by
          intro i hi s hs
          obtain ⟨r, hr⟩ := hwaits i hi
          cases hs.symm.trans hr
        rw [hhalted.eq_of_maximal hd h hsched hmax, hnone] at hpending
        exact absurd rfl hpending

end Storyboard

/-! ## Storyboards of markup -/

namespace Resolution

/-- The scene elements stand on the storyboard in order, under distinct ids, which are theirs. -/
theorem identified_ok : ∀ {elements : List Element} {index : Nat} {taken : List String}
    {scenes : List (String × Element)}, identified index taken elements = .ok scenes →
      scenes.map (·.2) = elements ∧ (∀ e ∈ scenes, e.2.get? "id" = some e.1) ∧
        (scenes.map (·.1)).Nodup ∧ ∀ id ∈ scenes.map (·.1), id ∉ taken
  | [], _, _, _, h => by cases h; exact ⟨rfl, by simp, List.nodup_nil, by simp⟩
  | el :: rest, index, taken, scenes, h => by
      rw [identified] at h
      split at h
      · cases h
      · rename_i id hid
        split at h
        · cases h
        · rename_i htaken
          cases hrest : identified (index + 1) (id :: taken) rest with
          | error fault => rw [hrest] at h; cases h
          | ok found =>
              rw [hrest] at h
              cases h
              obtain ⟨hels, hids, hnodup, hfree⟩ := identified_ok hrest
              refine ⟨by rw [List.map_cons, hels], ?_, ?_, ?_⟩
              · intro e hmem
                rcases List.mem_cons.mp hmem with rfl | hmem
                · exact hid
                · exact hids e hmem
              · refine List.nodup_cons.mpr ⟨fun hmem => ?_, hnodup⟩
                exact hfree id hmem List.mem_cons_self
              · intro id' hmem
                rcases List.mem_cons.mp hmem with rfl | hmem
                · simpa using htaken
                · exact fun ht => hfree id' hmem (List.mem_cons_of_mem _ ht)

variable {T : Type} [TimeScalar T]

theorem storyboard_ok {fps : Number} {root : Element} {board : Storyboard T}
    (h : storyboard fps root = .ok board) :
    board.fps = fps ∧ board.scale = root.timeScale ∧ board.Distinct ∧
      board.scenes.map (·.2) = root.childElements ["scene"] ∧
      ∀ e ∈ board.scenes, e.2.get? "id" = some e.1 := by
  unfold storyboard at h
  split at h
  · cases h
  · cases hid : identified 0 [] (root.childElements ["scene"]) with
    | error fault => rw [hid] at h; cases h
    | ok scenes =>
        rw [hid] at h
        cases h
        obtain ⟨hels, hids, hnodup, -⟩ := identified_ok hid
        exact ⟨rfl, rfl, hnodup, hels, hids⟩

end Resolution

/-! ## Compositions of markup -/

/-- No two scenes and no two cues have one id. -/
structure Composition.Distinct {T : Type} (c : Composition T) : Prop where
  scenes : (c.scenes.map Scene.id).Nodup
  cues : (c.cues.map Cue.id).Nodup

namespace Resolution

variable {T : Type} [TimeScalar T]

omit [TimeScalar T] in
/-- Where all scenes are there, they are distinct, and so are their cues. -/
theorem distinct_of_progress {board : Storyboard T} (hd : board.Distinct) {scenes : List (Scene T)}
    (h : Progress.Of (scenes.map some) board) :
    (scenes.map Scene.id).Nodup ∧ ((scenes.flatMap Scene.cues).map Cue.id).Nodup := by
  have hat : ∀ (i : Nat) (hi : i < scenes.length),
      Progress.at? (scenes.map some) i = some scenes[i] :=
    fun i hi => (Progress.at?_map_some scenes i).trans (List.getElem?_eq_getElem hi)
  constructor
  · rw [List.nodup_iff_injective_get]
    intro i j hij
    have hi : i.1 < scenes.length := by simpa using i.2
    have hj : j.1 < scenes.length := by simpa using j.2
    exact Fin.ext (h.index_unique hd (hat i hi) (hat j hj) (by simpa using hij))
  · rw [List.map_flatMap, List.nodup_flatMap]
    constructor
    · intro scene hscene
      obtain ⟨i, hi, rfl⟩ := List.mem_iff_getElem.mp hscene
      exact h.nodup (hat i hi)
    · rw [List.pairwise_iff_getElem]
      intro i j hi hj hlt id hid hid'
      exact absurd (h.disjoint (hat i hi) (hat j hj) id hid hid') (Nat.ne_of_lt hlt)

/-- Where markup is resolved, so are its parts. -/
theorem compose_parts {root : Element} {c : Composition T} (h : compose root = .ok c) :
    root.positiveNumber "fps" defaultFps = .ok c.fps ∧
      root.positiveNumber "width" defaultWidth = .ok c.width ∧
      root.positiveNumber "height" defaultHeight = .ok c.height ∧
      ∃ board, storyboard c.fps root = .ok board ∧ board.resolve = .ok c.scenes := by
  simp only [compose, bind, Except.bind, pure, Except.pure] at h
  split at h
  · cases h
  · split at h
    · cases h
    · -- size, rate, duration, poster, voiceover, storyboard and scenes
      iterate 8
        split at h
        · cases h
      cases h
      exact ⟨‹_›, ‹_›, ‹_›, _, ‹_›, ‹_›⟩

/-- What markup is resolved to has distinct scenes and cues. -/
theorem compose_distinct {root : Element} {c : Composition T} (h : compose root = .ok c) :
    c.Distinct := by
  obtain ⟨-, -, -, board, hboard, hscenes⟩ := compose_parts h
  obtain ⟨-, -, hd, -, -⟩ := storyboard_ok hboard
  obtain ⟨order, hsched⟩ := board.resolve_ok hd hscenes
  obtain ⟨hnodup, hcues⟩ := distinct_of_progress hd (hsched.consistent hd rfl).of
  exact ⟨hnodup, hcues⟩

end Resolution

end Cuesheet
