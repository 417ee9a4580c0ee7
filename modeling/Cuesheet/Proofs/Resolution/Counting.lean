import Cuesheet.Proofs.Resolution.Passes

/-!
# How many passes a resolution makes

`passes` says how many passes it took only where all scenes are resolved. `counted` counts them on
every way out, and `passes_eq_counted` says that it is the same loop. Every pass but the last takes
a scene from the pending ones, so there are never more passes than scenes, and the limit on passes
is never reached (`resolve_ends`).
-/

namespace Cuesheet

namespace Storyboard

variable {T : Type} [TimeScalar T] {board : Storyboard T}

/-! ## Counting passes -/

/-- Makes passes over the pending scenes like `passes`: how many were begun, those `before` among
them, and what came out. -/
def counted (board : Storyboard T) (before : Nat) (pending : List Nat) (progress : Progress T) :
    Nat × Except ResolutionFault (Progress T) :=
  if pending.isEmpty then (before, .ok progress)
  else
    match board.pass pending progress with
    | .error fault => (before + 1, .error fault)
    | .ok (progress, left) =>
      if left.length < pending.length then
        if !left.isEmpty && board.passLimit < before + 1 then (before + 1, .error .notConverging)
        else board.counted (before + 1) left progress
      else (before + 1, .error (.unresolved (board.idsAt left)))
termination_by pending.length

theorem passes_eq_counted (before : Nat) (pending : List Nat) (progress : Progress T) :
    board.passes before pending progress =
      (board.counted before pending progress).2.map
        (·, (board.counted before pending progress).1) := by
  induction before, pending, progress using passes.induct board with
  | case1 before pending progress hempty =>
      rw [passes, counted, if_pos hempty, if_pos hempty]
      rfl
  | case2 before pending progress hne fault hpass =>
      rw [passes, counted, if_neg hne, if_neg hne, hpass]
      rfl
  | case3 before pending progress hne progress' left hpass hlt hlimit =>
      rw [passes, counted, if_neg hne, if_neg hne, hpass]
      dsimp only
      rw [dif_pos hlt, if_pos hlimit, if_pos hlt, if_pos hlimit]
      rfl
  | case4 before pending progress hne progress' left hpass hlt hlimit ih =>
      rw [passes, counted, if_neg hne, if_neg hne, hpass]
      dsimp only
      rw [dif_pos hlt, if_neg hlimit, if_pos hlt, if_neg hlimit, ih]
  | case5 before pending progress hne progress' left hpass hlt =>
      rw [passes, counted, if_neg hne, if_neg hne, hpass]
      dsimp only
      rw [dif_neg hlt, if_neg hlt]
      rfl

/-- Each pass but the last leaves fewer scenes pending, whatever the passes do. -/
theorem counted_le (before : Nat) (pending : List Nat) (progress : Progress T) :
    (board.counted before pending progress).1 ≤ before + pending.length := by
  induction before, pending, progress using counted.induct board with
  | case1 before pending progress hempty =>
      rw [counted, if_pos hempty]
      omega
  | case2 before pending progress hne fault hpass =>
      have hpos : 0 < pending.length := by simpa [List.length_pos_iff] using hne
      rw [counted, if_neg hne, hpass]
      dsimp only
      omega
  | case3 before pending progress hne progress' left hpass hlt hlimit =>
      rw [counted, if_neg hne, hpass]
      dsimp only
      rw [if_pos hlt, if_pos hlimit]
      dsimp only
      omega
  | case4 before pending progress hne progress' left hpass hlt hlimit ih =>
      rw [counted, if_neg hne, hpass]
      dsimp only
      rw [if_pos hlt, if_neg hlimit]
      omega
  | case5 before pending progress hne progress' left hpass hlt =>
      have hpos : 0 < pending.length := by simpa [List.length_pos_iff] using hne
      rw [counted, if_neg hne, hpass]
      dsimp only
      rw [if_neg hlt]
      dsimp only
      omega

/-- The limit on passes never ends a resolution. -/
theorem resolve_converges (hd : board.Distinct) : board.resolve ≠ .error .notConverging := by
  have hout := resolve_outcome hd
  intro h
  unfold resolve at h
  cases hp : board.passes 0 (List.range board.scenes.length) board.start with
  | ok r => rw [hp] at h; cases h
  | error fault =>
      rw [hp] at h hout
      cases h
      rcases hout with ⟨hscene, -⟩ | ⟨_, _, -, -, -, hfault⟩
      · exact hscene.elim
      · cases hfault

end Storyboard

/-! ## The scenes of markup -/

namespace Resolution

variable {T : Type} [TimeScalar T]

/-- The scenes of a root, in document order. -/
def scenes (fps : Number) (root : Element) : Except ResolutionFault (List (Scene T)) :=
  (storyboard fps root).bind Storyboard.resolve

/-- The scenes of a root, with the passes made for them: none where the scene elements cannot be
told apart. -/
def countedScenes (fps : Number) (root : Element) :
    Nat × Except ResolutionFault (List (Scene T)) :=
  match storyboard fps root with
  | .error fault => (0, .error fault)
  | .ok board =>
    let run := board.counted 0 (List.range board.scenes.length) board.start
    (run.1, run.2.map Progress.scenes)

theorem countedScenes_snd (fps : Number) (root : Element) :
    (countedScenes fps root).2 = scenes (T := T) fps root := by
  unfold countedScenes scenes
  cases storyboard (T := T) fps root with
  | error fault => rfl
  | ok board =>
      simp only [Except.bind, Storyboard.resolve, Storyboard.passes_eq_counted]
      cases (board.counted 0 (List.range board.scenes.length) board.start).2 <;> rfl

omit [TimeScalar T] in
theorem identified_ne_notConverging {elements : List Element} {index : Nat} {taken : List String} :
    identified index taken elements ≠ .error .notConverging := by
  induction elements generalizing index taken with
  | nil =>
      intro h
      cases h
  | cons el rest ih =>
      rw [identified]
      cases el.get? "id" with
      | none =>
          intro h
          cases h
      | some id =>
          dsimp only
          split
          · intro h
            cases h
          · cases hrest : identified (index + 1) (id :: taken) rest with
            | ok found =>
                intro h
                cases h
            | error fault =>
                rintro ⟨⟩
                exact ih hrest

theorem storyboard_ne_notConverging (fps : Number) (root : Element) :
    storyboard (T := T) fps root ≠ .error .notConverging := by
  unfold storyboard
  split
  · nofun
  · cases hid : identified 0 [] (root.childElements ["scene"]) with
    | ok found => nofun
    | error fault =>
        rintro ⟨⟩
        exact identified_ne_notConverging hid

/-- A resolution makes no more passes than there are scenes, whether it gives them or fails, and
the limit on passes is never why it fails. -/
theorem resolve_ends (fps : Number) (root : Element) :
    (countedScenes (T := T) fps root).1 ≤ (root.childElements ["scene"]).length ∧
      (countedScenes fps root).2 = scenes (T := T) fps root ∧
      scenes (T := T) fps root ≠ .error .notConverging := by
  refine ⟨?_, countedScenes_snd fps root, ?_⟩
  · unfold countedScenes
    cases hboard : storyboard (T := T) fps root with
    | error fault => exact Nat.zero_le _
    | ok board =>
        obtain ⟨-, -, -, hels, -⟩ := storyboard_ok hboard
        have hle := board.counted_le 0 (List.range board.scenes.length) board.start
        rw [← hels, List.length_map]
        simpa using hle
  · unfold scenes
    cases hboard : storyboard (T := T) fps root with
    | error fault =>
        rintro ⟨⟩
        exact storyboard_ne_notConverging fps root hboard
    | ok board =>
        obtain ⟨-, -, hd, -, -⟩ := storyboard_ok hboard
        exact board.resolve_converges hd

end Resolution

end Cuesheet
