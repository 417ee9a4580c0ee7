import Cuesheet.Expr.Evaluate

/-!
# Formulas under growing knowledge

Times only become known, they never change. `Settled` says what that does to an outcome: unless
it waited for a time it stays what it is. Computations that can also be refused for a reason that
only arises later (an id that somebody else has taken meanwhile) are covered by the parameter
`late`; evaluation of formulas knows no such reason, so its lemmas hold for every `late`.

`evaluate_settled` and `evaluateTime_settled` are the statements for formulas and for their texts.
-/

namespace Cuesheet

/-! ## Outcomes that only waiting can change -/

/-- Whether a stop is a failure, as opposed to waiting. -/
def Stop.IsHard {ε : Type} : Stop ε → Prop
  | .waiting _ => False
  | .wrong _ => True
  | .fault _ => True

/-- What becomes of an outcome when more is known: whoever waited may get anything, all others
stay as they are or are refused for a reason in `late`. -/
inductive Settled {ε α : Type} (late : ε → Prop) :
    Except (Stop ε) α → Except (Stop ε) α → Prop
  | waiting (r : Reference) (b : Except (Stop ε) α) : Settled late (.error (.waiting r)) b
  | same (a : Except (Stop ε) α) : Settled late a a
  | refused {e : ε} (a : Except (Stop ε) α) (h : late e) : Settled late a (.error (.wrong e))

namespace Settled

variable {ε δ α β : Type} {late : ε → Prop}

theorem bind {a b : Except (Stop ε) α} {f g : α → Except (Stop ε) β}
    (h : Settled late a b) (hfg : ∀ x, Settled late (f x) (g x)) :
    Settled late (a >>= f) (b >>= g) := by
  cases h with
  | waiting r b => exact .waiting r _
  | same a =>
      cases a with
      | error stop => exact .same _
      | ok x => exact hfg x
  | refused a h => exact .refused _ h

/-- What is said about wrong formulas may be put differently. -/
theorem mapError {late' : δ → Prop} {a b : Except (Stop ε) α} {f : ε → δ}
    (h : Settled late a b) (hf : ∀ e, late e → late' (f e)) :
    Settled late' (a.mapError (Stop.mapWrong f)) (b.mapError (Stop.mapWrong f)) := by
  cases h with
  | waiting r b => exact .waiting r _
  | same a => exact .same _
  | refused a h => exact .refused _ (hf _ h)

/-- A result stays, if nothing comes in between. -/
theorem ok {x : α} {b : Except (Stop ε) α} (h : Settled late (.ok x) b)
    (hb : ∀ e, late e → b ≠ .error (.wrong e)) : b = .ok x := by
  cases h with
  | same => rfl
  | refused _ h => exact absurd rfl (hb _ h)

/-- What does not wait stays what it is, if nothing is refused later. -/
theorem eq {a b : Except (Stop ε) α} (h : Settled (fun _ => False) a b)
    (hknown : ∀ r, a ≠ .error (.waiting r)) : b = a := by
  cases h with
  | waiting r => exact absurd rfl (hknown r)
  | same => rfl
  | refused _ hnever => exact hnever.elim

/-- A result stays, unless it is refused. -/
theorem ok_or_hard {x : α} {b : Except (Stop ε) α} (h : Settled late (.ok x) b) :
    b = .ok x ∨ ∃ stop, stop.IsHard ∧ b = .error stop := by
  cases h with
  | same => exact .inl rfl
  | @refused e _ h => exact .inr ⟨.wrong e, trivial, rfl⟩

/-- A failure stays a failure, though perhaps for a late reason. -/
theorem hard {stop : Stop ε} {b : Except (Stop ε) α} (h : Settled late (.error stop) b)
    (hs : stop.IsHard) : ∃ stop', stop'.IsHard ∧ b = .error stop' := by
  cases h with
  | waiting r => exact hs.elim
  | same => exact ⟨stop, hs, rfl⟩
  | @refused e _ h => exact ⟨.wrong e, trivial, rfl⟩

end Settled

/-! ## More is known -/

/-- Whatever one knows the other knows too, with the same value and at the same frame rate. -/
structure Known.Le {T : Type} (known more : Known T) : Prop where
  fps : more.fps = known.fps
  lookup : ∀ (r : Reference) {t : T}, known.lookup r = some t → more.lookup r = some t

/-! ## Evaluation in sequence -/

namespace Expr

section

variable {T : Type} [TimeScalar T] (known : Known T)

theorem evaluate_signed (negated : Bool) (e : Expr) :
    evaluate known (.signed negated e) =
      evaluate known e >>= fun v => .ok (if negated then TimeScalar.neg v else v) := by
  rw [evaluate]; cases evaluate known e <;> rfl

theorem evaluate_binary (op : Operator) (left right : Expr) :
    evaluate known (.binary op left right) =
      evaluate known left >>= fun a => evaluate known right >>= fun b => combine op a b := by
  rw [evaluate]
  cases evaluate known left with
  | error stop => rfl
  | ok a => dsimp only; cases evaluate known right <;> rfl

/-- A call of a function that computes with its arguments. -/
theorem evaluate_call {function : String} {f : Function} (hf : Function.ofName? function = some f)
    {args : List Expr} (ha : f.arityFault? args.length = none) :
    evaluate known (.call function args) = evaluateAll known args >>= f.apply := by
  rw [evaluate, hf]
  dsimp only
  rw [ha]
  cases evaluateAll known args <;> rfl

theorem evaluateAll_cons (e : Expr) (rest : List Expr) :
    evaluateAll known (e :: rest) =
      evaluate known e >>= fun v => evaluateAll known rest >>= fun values => .ok (v :: values) := by
  rw [evaluateAll]
  cases evaluate known e with
  | error stop => rfl
  | ok v => dsimp only; cases evaluateAll known rest <;> rfl

end

/-! ## Evaluation under growing knowledge -/

variable {T : Type} [TimeScalar T] {late : EvalFault → Prop} {known more : Known T}

omit [TimeScalar T] in
theorem refer_settled (h : known.Le more) (r : Reference) :
    Settled late (refer known r) (refer more r) := by
  unfold refer
  cases hr : known.lookup r with
  | none => exact .waiting r _
  | some t => rw [h.lookup r hr]; exact .same _

theorem propertyValue_settled (h : known.Le more) (target : Expr) (prop : String) :
    Settled late (propertyValue known target prop) (propertyValue more target prop) := by
  unfold propertyValue
  cases target with
  | name id => dsimp only; repeat' split
               all_goals first | exact refer_settled h _ | exact .same _
  | call function args =>
      dsimp only
      split
      · cases referenceId function args with
        | error stop => exact .same _
        | ok id => dsimp only; repeat' split
                   all_goals first | exact refer_settled h _ | exact .same _
      · split
        · cases referenceId function args with
          | error stop => exact .same _
          | ok id => exact refer_settled h _
        · exact .same _
  | _ => exact .same _

mutual

/-- A formula keeps its value, and what is wrong with it, when more is known. -/
theorem evaluate_settled (h : known.Le more) : ∀ e : Expr,
    Settled late (e.evaluate known) (e.evaluate more)
  | .number value unit => by
      rw [evaluate, evaluate, h.fps]; exact .same _
  | .name id => by
      rw [evaluate, evaluate]; exact .same _
  | .signed negated operand => by
      rw [evaluate_signed, evaluate_signed]
      exact (evaluate_settled h operand).bind fun v => .same _
  | .binary op left right => by
      rw [evaluate_binary, evaluate_binary]
      refine (evaluate_settled h left).bind fun a => ?_
      exact (evaluate_settled h right).bind fun b => .same _
  | .call function args => by
      cases hf : Function.ofName? function with
      | some f =>
          cases ha : f.arityFault? args.length with
          | some fault => rw [evaluate, evaluate, hf]; simp only [ha]; exact .same _
          | none =>
              rw [evaluate_call known hf ha, evaluate_call more hf ha]
              exact (evaluateAll_settled h args).bind fun values => .same _
      | none =>
          rw [evaluate, evaluate, hf]
          dsimp only
          split
          · cases referenceId function args with
            | error stop => exact .same _
            | ok id => exact refer_settled h _
          · split
            · cases referenceId function args with
              | error stop => exact .same _
              | ok id => exact refer_settled h _
            · exact .same _
  | .property target prop => by
      rw [evaluate, evaluate]
      exact propertyValue_settled h target prop

theorem evaluateAll_settled (h : known.Le more) : ∀ es : List Expr,
    Settled late (evaluateAll known es) (evaluateAll more es)
  | [] => by rw [evaluateAll, evaluateAll]; exact .same _
  | e :: rest => by
      rw [evaluateAll_cons, evaluateAll_cons]
      refine (evaluate_settled h e).bind fun v => ?_
      exact (evaluateAll_settled h rest).bind fun values => .same _

end

end Expr

/-! ## Texts -/

section

variable {T : Type} [TimeScalar T]

theorem evaluateTime_of_ok {text : String} {e : Expr} (he : Expr.ofText text = .ok e)
    (known : Known T) :
    evaluateTime known text =
      (e.evaluate known).mapError (Stop.mapWrong (.evaluation · (Text.trim text))) := by
  unfold evaluateTime
  rw [he]
  dsimp only
  cases e.evaluate known <;> rfl

theorem evaluateTime_settled {late : TimeFault → Prop} {known more : Known T}
    (h : known.Le more) (text : String) :
    Settled late (evaluateTime known text) (evaluateTime more text) := by
  cases he : Expr.ofText text with
  | error fault => unfold evaluateTime; rw [he]; exact .same _
  | ok e =>
      rw [evaluateTime_of_ok he, evaluateTime_of_ok he]
      have hs : Settled (fun _ => False) (e.evaluate known) (e.evaluate more) :=
        Expr.evaluate_settled h e
      exact hs.mapError fun _ => False.elim

end

end Cuesheet
