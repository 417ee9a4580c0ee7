import Cuesheet.Proofs.Data.Outcomes
import Cuesheet.Proofs.Expr.Breakdown

/-!
# The times that a formula mentions

`references` reads off a formula, without evaluating it, which times it mentions. An evaluation
consults these and no others (`evaluate_consults`): it waits only for one of them that is not known
yet, and has a value only where all of them are.

Trying again whenever more has become known rests on `evaluate_monotone`. A value, or what is wrong
with a formula, stays what it is; what a formula waits for is really missing; and where nothing is
missing that it mentions, it does not wait.
-/

namespace Cuesheet

/-! ## The spelling of a reference -/

namespace Reference

/-- The characters at both ends of the spelling of a reference. -/
def ends : Reference → Char × Char
  | .scene _ => ('s', ')')
  | .sceneStart _ => ('s', 't')
  | .sceneEnd _ => ('s', 'd')
  | .cue _ => ('c', ')')
  | .cueStart _ => ('c', 't')
  | .prevStart => ('p', 't')
  | .prevEnd => ('p', 'd')
  | .nextStart => ('n', 't')

theorem head_text (r : Reference) : r.text.toList.head? = some r.ends.1 := by
  cases r <;> simp [text, ends]

theorem last_text (r : Reference) : r.text.toList.getLast? = some r.ends.2 := by
  cases r <;> simp [text, ends, List.getLast?_cons]

/-- No two references are spelled alike, whatever ids they are about. -/
theorem text_injective : Function.Injective text := by
  intro r r' h
  have hends : r.ends = r'.ends := by
    refine Prod.ext ?_ ?_
    · rw [← Option.some_inj, ← head_text, ← head_text, h]
    · rw [← Option.some_inj, ← last_text, ← last_text, h]
  -- the ends differ from form to form, so that what is left to compare are ids
  cases r <;> cases r' <;> simp_all [ends, text]

end Reference

/-! ## Consulting times -/

section

variable {T ε α β : Type} {known : Known T} {refs refs' : List Reference}

/-- An outcome that depends on some times: it waits for one of them only if that is not known, and
there is a result only where all of them are. -/
structure Consults (known : Known T) (refs : List Reference) (outcome : Except (Stop ε) α) :
    Prop where
  waiting : ∀ {r : Reference}, outcome = .error (.waiting r) →
    r ∈ refs ∧ known.lookup r = none
  result : ∀ {x : α}, outcome = .ok x → ∀ r ∈ refs, (known.lookup r).isSome = true

namespace Consults

theorem wrong (e : ε) : Consults known refs (.error (.wrong e) : Except (Stop ε) α) where
  waiting h := by cases h
  result h := by cases h

/-- What never waits need not consult anything. -/
theorem nothing {outcome : Except (Stop ε) α} (h : ∀ r, outcome ≠ .error (.waiting r)) :
    Consults known [] outcome where
  waiting hwaits := absurd hwaits (h _)
  result _ _ hr := absurd hr List.not_mem_nil

theorem refer (known : Known T) (r : Reference) : Consults known [r] (Expr.refer known r) := by
  unfold Expr.refer
  cases hr : known.lookup r with
  | none =>
      refine ⟨?_, nofun⟩
      rintro _ ⟨⟩
      exact ⟨List.mem_singleton_self r, hr⟩
  | some t =>
      refine ⟨nofun, fun _ r' hr' => ?_⟩
      rw [List.mem_singleton.mp hr', hr]
      rfl

/-- In sequence, both parts are consulted. -/
theorem bind {m : Except (Stop ε) α} {f : α → Except (Stop ε) β} (h : Consults known refs m)
    (hf : ∀ x, Consults known refs' (f x)) : Consults known (refs ++ refs') (m >>= f) where
  waiting hwaits := by
    rcases Expr.stop_of_bind hwaits with hm | ⟨x, -, hx⟩
    · exact (h.waiting hm).imp_left (List.mem_append_left _)
    · exact ((hf x).waiting hx).imp_left (List.mem_append_right _)
  result hy r hr := by
    obtain ⟨x, hm, hx⟩ := ok_of_bind hy
    rcases List.mem_append.mp hr with hr | hr
    · exact h.result hm r hr
    · exact (hf x).result hx r hr

/-- What is made of a result without consulting anything else. -/
theorem map {m : Except (Stop ε) α} {f : α → Except (Stop ε) β} (h : Consults known refs m)
    (hf : ∀ x r, f x ≠ .error (.waiting r)) : Consults known refs (m >>= f) := by
  rw [← List.append_nil refs]
  exact h.bind fun x => nothing (hf x)

end Consults

end

namespace Expr

/-! ## What a formula mentions -/

/-- The time that a formula is a reference to, if it is one. -/
def reference? : Expr → Option Reference
  | .call "scene" [.name id] => some (.scene id)
  | .call "cue" [.name id] => some (.cue id)
  | .property (.call "scene" [.name id]) "start" => some (.sceneStart id)
  | .property (.call "scene" [.name id]) "end" => some (.sceneEnd id)
  | .property (.call "cue" [.name id]) "start" => some (.cueStart id)
  | .property (.name "prev") "start" => some .prevStart
  | .property (.name "prev") "end" => some .prevEnd
  | .property (.name "next") "start" => some .nextStart
  | _ => none

mutual

/-- The times that a formula mentions, from left to right. What a property hangs off is mentioned
only together with it, as one reference. -/
def references : Expr → List Reference
  | .number _ _ => []
  | .name _ => []
  | .signed _ operand => operand.references
  | .binary _ left right => left.references ++ right.references
  | .call function args => (reference? (.call function args)).toList ++ referencesAll args
  | .property target prop => (reference? (.property target prop)).toList

/-- The times that some formulas mention. -/
def referencesAll : List Expr → List Reference
  | [] => []
  | e :: rest => e.references ++ referencesAll rest

end

/-! ## What an evaluation consults -/

variable {T : Type} [TimeScalar T] {known : Known T} {r : Reference}

theorem seconds_ne_waiting (fps : Number) (value : RealLiteral) (unit : Option TimeUnit) :
    seconds (T := T) fps value unit ≠ .error (.waiting r) := by
  unfold seconds
  dsimp only
  repeat' split
  all_goals nofun

theorem combine_ne_waiting (op : Operator) (a b : T) :
    combine op a b ≠ .error (.waiting r) := by
  unfold combine
  cases op <;> dsimp only <;> repeat' split
  all_goals nofun

theorem apply_ne_waiting (f : Function) (values : List T) :
    f.apply values ≠ .error (.waiting r) := by
  unfold Function.apply Expr.snap
  dsimp only
  repeat' split
  all_goals nofun

omit [TimeScalar T] in
/-- What is looked up by an id is looked up only if the id is the one argument. -/
theorem referenceId_consults {refs : List Reference} {function : String} {args : List Expr}
    {next : String → Except (Stop EvalFault) T}
    (h : ∀ id, args = [.name id] → Consults known refs (next id)) :
    Consults known refs (match referenceId function args with
      | .error stop => .error stop
      | .ok id => next id) := by
  unfold referenceId
  split
  · rename_i hstop
    split at hstop <;> cases hstop
    exact .wrong _
  · rename_i hid
    split at hid <;> cases hid
    exact h _ rfl

theorem propertyValue_consults (target : Expr) (prop : String) :
    Consults known (references (.property target prop)) (propertyValue known target prop) := by
  unfold propertyValue
  cases target with
  | name id =>
      simp only [Bool.and_eq_true, beq_iff_eq]
      split
      · obtain ⟨rfl, rfl⟩ := ‹id = "prev" ∧ prop = "start"›
        exact .refer known .prevStart
      split
      · obtain ⟨rfl, rfl⟩ := ‹id = "prev" ∧ prop = "end"›
        exact .refer known .prevEnd
      split
      · obtain ⟨rfl, rfl⟩ := ‹id = "next" ∧ prop = "start"›
        exact .refer known .nextStart
      split
      · obtain ⟨rfl, rfl⟩ := ‹id = "timeline" ∧ prop = "start"›
        exact .nothing nofun
      · exact .wrong _
  | call function args =>
      simp only [Bool.and_eq_true, beq_iff_eq]
      split
      · obtain rfl := ‹function = "scene"›
        refine referenceId_consults fun id hargs => ?_
        subst hargs
        split
        · obtain rfl := ‹prop = "start"›
          exact .refer known (.sceneStart id)
        split
        · obtain rfl := ‹prop = "end"›
          exact .refer known (.sceneEnd id)
        · exact .wrong _
      split
      · obtain ⟨rfl, rfl⟩ := ‹function = "cue" ∧ prop = "start"›
        refine referenceId_consults fun id hargs => ?_
        subst hargs
        exact .refer known (.cueStart id)
      · exact .wrong _
  | number | signed | binary | property => exact .wrong _

/-- A function that computes with the values of its arguments is no reference. -/
theorem reference?_of_ofName? {function : String} {f : Function} {args : List Expr}
    (h : Function.ofName? function = some f) : reference? (.call function args) = none := by
  have hscene : function ≠ "scene" := by
    rintro rfl
    cases (show none = some f from h)
  have hcue : function ≠ "cue" := by
    rintro rfl
    cases (show none = some f from h)
  simp [reference?, hscene, hcue]

mutual

/-- An evaluation waits only for a time that the formula mentions and that is not known, and has a
value only where all the times that the formula mentions are known. -/
theorem evaluate_consults : ∀ e : Expr, Consults known e.references (e.evaluate known)
  | .number value unit => by
      rw [evaluate, references]
      exact .nothing fun r => seconds_ne_waiting _ _ _
  | .name id => by
      rw [evaluate]
      exact .wrong _
  | .signed negated operand => by
      rw [evaluate_signed, references]
      exact (evaluate_consults operand).map nofun
  | .binary op left right => by
      rw [evaluate_binary, references]
      refine (evaluate_consults left).bind fun a => ?_
      exact (evaluate_consults right).map fun b r => combine_ne_waiting op a b
  | .call function args => by
      rw [references]
      cases hf : Function.ofName? function with
      | some f =>
          rw [reference?_of_ofName? hf]
          cases ha : f.arityFault? args.length with
          | some fault =>
              rw [evaluate, hf]
              simp only [ha]
              exact .wrong fault
          | none =>
              rw [evaluate_call known hf ha]
              exact (evaluateAll_consults args).map fun values r => apply_ne_waiting f values
      | none =>
          rw [evaluate, hf]
          simp only [beq_iff_eq]
          split
          · obtain rfl := ‹function = "scene"›
            refine referenceId_consults fun id hargs => ?_
            subst hargs
            exact .refer known (.scene id)
          split
          · obtain rfl := ‹function = "cue"›
            refine referenceId_consults fun id hargs => ?_
            subst hargs
            exact .refer known (.cue id)
          · exact .wrong _
  | .property target prop => by
      rw [evaluate]
      exact propertyValue_consults target prop

theorem evaluateAll_consults : ∀ es : List Expr,
    Consults known (referencesAll es) (evaluateAll known es)
  | [] => by
      rw [evaluateAll, referencesAll]
      exact .nothing nofun
  | e :: rest => by
      rw [evaluateAll_cons, referencesAll]
      refine (evaluate_consults e).bind fun v => ?_
      exact (evaluateAll_consults rest).map nofun

end

/-! ## Trying again -/

/-- Evaluation is monotone in what is known. What does not wait comes to the same when more is
known, be it a value or a failure. What waits names a time that the formula mentions, and no time of
that name is known. Where all the times are known that a formula mentions it does not wait, and
nowhere else has it a value. -/
theorem evaluate_monotone {known more : Known T} (h : known.Le more) (e : Expr) :
    ((∀ r, e.evaluate known ≠ .error (.waiting r)) → e.evaluate more = e.evaluate known) ∧
    (∀ r, e.evaluate known = .error (.waiting r) →
      r ∈ e.references ∧ ∀ r' : Reference, r'.text = r.text → known.lookup r' = none) ∧
    ((∀ r ∈ e.references, (more.lookup r).isSome = true) →
      ∀ r, e.evaluate more ≠ .error (.waiting r)) ∧
    ∀ t, e.evaluate more = .ok t → ∀ r ∈ e.references, (more.lookup r).isSome = true := by
  have hconsults : Consults known e.references (e.evaluate known) := evaluate_consults e
  have hconsultsMore : Consults more e.references (e.evaluate more) := evaluate_consults e
  refine ⟨fun hsettled => ?_, fun r hwaits => ?_, fun hknown r hwaits => ?_, fun t ht => ?_⟩
  · exact Settled.eq (evaluate_settled h e) hsettled
  · obtain ⟨hmentioned, hunknown⟩ := hconsults.waiting hwaits
    refine ⟨hmentioned, fun r' hname => ?_⟩
    rw [Reference.text_injective hname]
    exact hunknown
  · obtain ⟨hmentioned, hunknown⟩ := hconsultsMore.waiting hwaits
    have hsome := hknown r hmentioned
    rw [hunknown] at hsome
    cases hsome
  · exact hconsultsMore.result ht

/-! ## A hook that is placed later -/

/-- The intro has ended, and where the hook comes is not known yet. -/
def afterIntro : Known Float where
  fps := .int 30
  sceneEnd id := if id = "intro" then some 4 else none
  prevEnd := some 4

/-- Now the hook is placed as well. -/
def afterHook : Known Float :=
  { afterIntro with cueStart := fun id => if id = "hook" then some 5.5 else none }

theorem afterIntro_le : afterIntro.Le afterHook where
  fps := rfl
  lookup r t hr := by
    cases r with
    | cue id => cases hr
    | cueStart id => cases hr
    | scene | sceneStart | sceneEnd | prevStart | prevEnd | nextStart => exact hr

theorem evaluate_monotone_hook : afterIntro.Le afterHook ∧
    (∃ e, ofText "prev.end + 15f" = .ok e ∧ e.evaluate afterIntro = .ok 4.5 ∧
      e.evaluate afterHook = .ok 4.5) ∧
    ∃ e, ofText "max(scene(intro).end, cue(hook) - 1s)" = .ok e ∧
      e.evaluate afterIntro = .error (.waiting (.cue "hook")) ∧
      .cue "hook" ∈ e.references ∧
      (∀ r : Reference, r.text = "cue(hook)" → afterIntro.lookup r = none) ∧
      (∀ r ∈ e.references, (afterHook.lookup r).isSome = true) ∧
      ∀ r, e.evaluate afterHook ≠ .error (.waiting r) := by
  refine ⟨afterIntro_le, ?_, ?_⟩
  · have hvalue : (ofText "prev.end + 15f").toOption.any (fun e =>
        decide (e.evaluate afterIntro = .ok 4.5)) = true := by
      decide +kernel
    obtain ⟨e, he, hvalue⟩ := exists_ok_of_any hvalue
    have hvalue := of_decide_eq_true hvalue
    obtain ⟨hkeeps, -⟩ := evaluate_monotone afterIntro_le e
    refine ⟨e, he, hvalue, ?_⟩
    rw [hkeeps (by rw [hvalue]; nofun), hvalue]
  · have hwaits : (ofText "max(scene(intro).end, cue(hook) - 1s)").toOption.any (fun e =>
        decide (e.evaluate afterIntro = .error (.waiting (.cue "hook"))) &&
          e.references.all fun r => (afterHook.lookup r).isSome) = true := by
      decide +kernel
    obtain ⟨e, he, hwaits⟩ := exists_ok_of_any hwaits
    obtain ⟨hwaits, hknown⟩ := Bool.and_eq_true_iff.mp hwaits
    have hwaits := of_decide_eq_true hwaits
    have hknown := List.all_eq_true.mp hknown
    obtain ⟨-, hmissing, hnever, -⟩ := evaluate_monotone afterIntro_le e
    obtain ⟨hmentioned, hname⟩ := hmissing _ hwaits
    exact ⟨e, he, hwaits, hmentioned, hname, hknown, hnever hknown⟩

end Expr

end Cuesheet
