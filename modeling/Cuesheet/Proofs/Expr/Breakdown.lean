import Cuesheet.Proofs.Expr.Monotone
import Cuesheet.Proofs.Number.Doubles

/-!
# Where the arithmetic of a formula breaks down

Wrong formulas are reported as such, and a formula that refers to a time nobody knows yet waits.
Beside that an evaluation can only fail in two places: where frames are divided by a frame rate
that is no double, and where a number is snapped to a grid so fine that there is no counting its
lines (`Breaks`). `evaluateTime_breaks_iff` says that an evaluation fails so exactly if it comes
to such a place (`Reaches`).
-/

namespace Cuesheet

deriving instance DecidableEq for Stop

namespace Expr

section

variable {T : Type} [TimeScalar T] {known : Known T} {part e : Expr} {fault : ArithFault}

/-! ## What an evaluation comes to -/

/-- An evaluation comes to a part of a formula: whatever stands before it there has a value. -/
inductive Reaches (known : Known T) (part : Expr) : Expr → Prop
  | here : Reaches known part part
  | operand {negated : Bool} {operand : Expr} (inside : Reaches known part operand) :
      Reaches known part (.signed negated operand)
  | left {op : Operator} {left right : Expr} (inside : Reaches known part left) :
      Reaches known part (.binary op left right)
  | right {op : Operator} {left right : Expr} {a : T} (earlier : left.evaluate known = .ok a)
      (inside : Reaches known part right) : Reaches known part (.binary op left right)
  | argument {function : String} {f : Function} {before after : List Expr} {e : Expr}
      {values : List T} (name : Function.ofName? function = some f)
      (arity : f.arityFault? (before ++ e :: after).length = none)
      (earlier : evaluateAll known before = .ok values) (inside : Reaches known part e) :
      Reaches known part (.call function (before ++ e :: after))

/-- An operation that fails for the numbers that it gets. -/
inductive Fails (known : Known T) : Expr → ArithFault → Prop
  | seconds {value : RealLiteral} {unit : Option TimeUnit} {fault : ArithFault}
      (fails : seconds (T := T) known.fps value unit = .error (.fault fault)) :
      Fails known (.number value unit) fault
  | snap {function : String} {a b : Expr} {x y : T} {fault : ArithFault}
      (name : Function.ofName? function = some .snap) (value : a.evaluate known = .ok x)
      (grid : b.evaluate known = .ok y) (fails : Expr.snap x y = .error (.fault fault)) :
      Fails known (.call function [a, b]) fault

theorem evaluateAll_append (before after : List Expr) :
    evaluateAll known (before ++ after) =
      evaluateAll known before >>= fun values => evaluateAll known after >>= fun more =>
        .ok (values ++ more) := by
  induction before with
  | nil =>
      rw [List.nil_append, evaluateAll]
      cases evaluateAll known after <;> rfl
  | cons e rest ih =>
      rw [List.cons_append, evaluateAll_cons, evaluateAll_cons, ih]
      cases e.evaluate known with
      | error stop => rfl
      | ok v =>
          cases evaluateAll known rest with
          | error stop => rfl
          | ok values => cases evaluateAll known after <;> rfl

/-- What fails inside fails as a whole. -/
theorem Reaches.evaluate_fault (h : Reaches known part e)
    (hpart : part.evaluate known = .error (.fault fault)) :
    e.evaluate known = .error (.fault fault) := by
  induction h with
  | here => exact hpart
  | operand _ ih => rw [evaluate_signed, ih]; rfl
  | left _ ih => rw [evaluate_binary, ih]; rfl
  | right earlier _ ih => rw [evaluate_binary, earlier, ih]; rfl
  | argument name arity earlier _ ih =>
      rw [evaluate_call known name arity, evaluateAll_append, earlier, evaluateAll_cons, ih]
      rfl

theorem Fails.evaluate_fault (h : Fails known part fault) :
    part.evaluate known = .error (.fault fault) := by
  cases h with
  | seconds fails => rw [evaluate, fails]
  | snap name value grid fails =>
      rw [evaluate_call known name rfl, evaluateAll_cons, value, evaluateAll_cons, grid]
      exact fails

/-! ## Where a fault comes from -/

omit [TimeScalar T] in
/-- What stops in sequence stops in the first part, or in the second one. -/
theorem stop_of_bind {ε α β : Type} {stop : Stop ε} {m : Except (Stop ε) α}
    {f : α → Except (Stop ε) β} (h : m >>= f = .error stop) :
    m = .error stop ∨ ∃ a, m = .ok a ∧ f a = .error stop := by
  cases m with
  | error stop => cases h; exact .inl rfl
  | ok a => exact .inr ⟨a, rfl, h⟩

theorem combine_ne_fault (op : Operator) (a b : T) : combine op a b ≠ .error (.fault fault) := by
  unfold combine
  cases op <;> dsimp only <;> repeat' split
  all_goals nofun

/-- Of the functions, only snapping can fail. -/
theorem apply_fault {f : Function} {values : List T}
    (h : f.apply values = .error (.fault fault)) :
    f = .snap ∧ ∃ x y, values = [x, y] ∧ Expr.snap x y = .error (.fault fault) := by
  unfold Function.apply at h
  split at h
  · cases h
  · cases h
  · cases h
  · exact ⟨rfl, _, _, rfl, h⟩
  · cases h

omit [TimeScalar T] in
theorem refer_ne_fault (r : Reference) : refer known r ≠ .error (.fault fault) := by
  unfold refer
  split <;> nofun

theorem referenceId_ne_fault (function : String) (args : List Expr) :
    referenceId function args ≠ .error (.fault fault) := by
  unfold referenceId
  split <;> nofun

/-- What starts with an id from an argument fails only afterwards. -/
theorem referenceId_bind_ne_fault {α : Type} {function : String} {args : List Expr}
    {next : String → Except (Stop EvalFault) α} (h : ∀ id, next id ≠ .error (.fault fault)) :
    (match referenceId function args with
      | .error stop => .error stop
      | .ok id => next id) ≠ Except.error (Stop.fault fault) := by
  cases hid : referenceId function args with
  | error stop =>
      intro heq
      cases heq
      exact referenceId_ne_fault function args hid
  | ok id => exact h id

theorem propertyValue_ne_fault (target : Expr) (prop : String) :
    propertyValue known target prop ≠ .error (.fault fault) := by
  unfold propertyValue
  split
  · repeat' split
    all_goals first | exact refer_ne_fault _ | nofun
  · split
    · refine referenceId_bind_ne_fault fun id => ?_
      repeat' split
      all_goals first | exact refer_ne_fault _ | nofun
    · split
      · exact referenceId_bind_ne_fault fun id => refer_ne_fault _
      · nofun
  · nofun

theorem evaluateAll_pair {a b : Expr} {x y : T} (h : evaluateAll known [a, b] = .ok [x, y]) :
    a.evaluate known = .ok x ∧ b.evaluate known = .ok y := by
  rw [evaluateAll_cons, evaluateAll_cons, evaluateAll] at h
  cases ha : a.evaluate known with
  | error stop => rw [ha] at h; cases h
  | ok x' =>
      cases hb : b.evaluate known with
      | error stop => rw [ha, hb] at h; cases h
      | ok y' => rw [ha, hb] at h; cases h; exact ⟨rfl, rfl⟩

mutual

/-- What fails as a whole fails at a part that its evaluation comes to. -/
theorem fails_of_evaluate : ∀ {e : Expr}, e.evaluate known = .error (.fault fault) →
    ∃ part, Reaches known part e ∧ Fails known part fault
  | .number value unit, h => ⟨_, .here, .seconds (by rwa [evaluate] at h)⟩
  | .name id, h => by rw [evaluate] at h; cases h
  | .signed negated operand, h => by
      rw [evaluate_signed] at h
      rcases stop_of_bind h with h | ⟨v, -, h⟩
      · obtain ⟨part, hreaches, hfails⟩ := fails_of_evaluate h
        exact ⟨part, .operand hreaches, hfails⟩
      · cases h
  | .binary op left right, h => by
      rw [evaluate_binary] at h
      rcases stop_of_bind h with h | ⟨a, ha, h⟩
      · obtain ⟨part, hreaches, hfails⟩ := fails_of_evaluate h
        exact ⟨part, .left hreaches, hfails⟩
      rcases stop_of_bind h with h | ⟨b, hb, h⟩
      · obtain ⟨part, hreaches, hfails⟩ := fails_of_evaluate h
        exact ⟨part, .right ha hreaches, hfails⟩
      · exact absurd h (combine_ne_fault op a b)
  | .call function args, h => by
      cases hf : Function.ofName? function with
      | none =>
          rw [evaluate, hf] at h
          dsimp only at h
          split at h
          · exact absurd h (referenceId_bind_ne_fault fun id => refer_ne_fault _)
          · split at h
            · exact absurd h (referenceId_bind_ne_fault fun id => refer_ne_fault _)
            · cases h
      | some f =>
          cases ha : f.arityFault? args.length with
          | some wrong => rw [evaluate, hf] at h; simp only [ha] at h; cases h
          | none =>
              rw [evaluate_call known hf ha] at h
              rcases stop_of_bind h with h | ⟨values, hvalues, h⟩
              · obtain ⟨before, e, after, values, part, rfl, hbefore, hreaches, hfails⟩ :=
                  fails_of_evaluateAll h
                exact ⟨part, .argument hf ha hbefore hreaches, hfails⟩
              · obtain ⟨rfl, x, y, rfl, hsnap⟩ := apply_fault h
                have hlength : args.length = 2 := by
                  by_contra hne
                  rw [Function.arityFault?, if_neg hne] at ha
                  cases ha
                obtain ⟨a, b, rfl⟩ := List.length_eq_two.mp hlength
                obtain ⟨hx, hy⟩ := evaluateAll_pair hvalues
                exact ⟨_, .here, .snap hf hx hy hsnap⟩
  | .property target prop, h => by
      rw [evaluate] at h
      exact absurd h (propertyValue_ne_fault target prop)

theorem fails_of_evaluateAll : ∀ {es : List Expr}, evaluateAll known es = .error (.fault fault) →
    ∃ before e after values part, es = before ++ e :: after ∧
      evaluateAll known before = .ok values ∧ Reaches known part e ∧ Fails known part fault
  | [], h => by rw [evaluateAll] at h; cases h
  | e :: rest, h => by
      rw [evaluateAll_cons] at h
      rcases stop_of_bind h with h | ⟨v, hv, h⟩
      · obtain ⟨part, hreaches, hfails⟩ := fails_of_evaluate h
        exact ⟨[], e, rest, [], part, rfl, by rw [evaluateAll], hreaches, hfails⟩
      rcases stop_of_bind h with h | ⟨values, -, h⟩
      · obtain ⟨before, e', after, values, part, rfl, hbefore, hreaches, hfails⟩ :=
          fails_of_evaluateAll h
        refine ⟨e :: before, e', after, v :: values, part, rfl, ?_, hreaches, hfails⟩
        rw [evaluateAll_cons, hv, hbefore]
        rfl
      · cases h

end

theorem evaluate_fault_iff : e.evaluate known = .error (.fault fault) ↔
    ∃ part, Reaches known part e ∧ Fails known part fault := by
  constructor
  · exact fails_of_evaluate
  · rintro ⟨part, hreaches, hfails⟩
    exact hreaches.evaluate_fault hfails.evaluate_fault

end

/-! ## Doubles -/

section

variable {known : Known Float} {part : Expr} {fault : ArithFault}

/-- Where the arithmetic of doubles breaks down: frames at a rate that is an integer beyond them,
and a number on a grid whose lines up to there are too many to be counted. -/
inductive Breaks (known : Known Float) : Expr → Prop
  | rate {value : RealLiteral} {n : Int} (fps : known.fps = .int n)
      (large : Number.integerLimit ≤ n.natAbs) : Breaks known (.number value (some .frames))
  | grid {a b : Expr} {x y : Float} (value : a.evaluate known = .ok x)
      (grid : b.evaluate known = .ok y) (line : (y == 0) = false)
      (large : (x / y + 0.5).isFinite = false) : Breaks known (.call "snap" [a, b])

theorem snap_fault_iff {x y : Float} : (∃ fault, Expr.snap x y = .error (.fault fault)) ↔
    (y == 0) = false ∧ (x / y + 0.5).isFinite = false := by
  have hhalf : TimeScalar.ofLiteral (.finite false 5 (-1)) = (0.5 : Float) := by decide +kernel
  have hline : TimeScalar.beq y TimeScalar.zero = (y == 0) := by rw [Number.zero_eq]; rfl
  have hfloor : TimeScalar.floor (TimeScalar.add (TimeScalar.div x y) (0.5 : Float)) =
      Number.floorFloat (x / y + 0.5) := rfl
  unfold Expr.snap
  dsimp only
  rw [hhalf, hline, hfloor, ← Bool.not_eq_true (Float.isFinite _), ← Number.floorFloat_ok_iff]
  cases hzero : y == 0 with
  | true => exact iff_of_false nofun nofun
  | false =>
      rw [if_neg Bool.false_ne_true]
      cases hresult : Number.floorFloat (x / y + 0.5) with
      | error fault => exact iff_of_true ⟨fault, rfl⟩ ⟨rfl, nofun⟩
      | ok n => exact iff_of_false nofun fun h => h.2 ⟨n, rfl⟩

theorem seconds_fault_iff (hfps : known.fps.isPositive = true) {value : RealLiteral}
    {unit : Option TimeUnit} :
    (∃ fault, seconds (T := Float) known.fps value unit = .error (.fault fault)) ↔
      unit = some .frames ∧ ∃ n, known.fps = .int n ∧ Number.integerLimit ≤ n.natAbs := by
  have hrate : TimeScalar.ofNumber (T := Float) known.fps = known.fps.toFloat? := rfl
  cases unit with
  | none => exact iff_of_false nofun nofun
  | some unit =>
      cases unit with
      | frames =>
          rw [← Number.toFloat?_error_iff, seconds, hrate, and_iff_right rfl]
          cases hfloat : known.fps.toFloat? with
          | error fault => exact iff_of_true ⟨fault, rfl⟩ ⟨fault, rfl⟩
          | ok rate =>
              simp only [Number.toFloat?_ne_zero hfps hfloat]
              exact iff_of_false nofun nofun
      | _ => exact iff_of_false nofun nofun

theorem eq_snap_of_ofName? {function : String} (h : Function.ofName? function = some .snap) :
    function = "snap" := by
  unfold Function.ofName? at h
  repeat' split at h
  all_goals first | exact eq_of_beq ‹_› | cases h

theorem fails_iff_breaks (hfps : known.fps.isPositive = true) :
    (∃ fault, Fails known part fault) ↔ Breaks known part := by
  constructor
  · rintro ⟨fault, h⟩
    cases h with
    | seconds fails =>
        obtain ⟨rfl, n, hn, hlarge⟩ := (seconds_fault_iff hfps).mp ⟨_, fails⟩
        exact .rate hn hlarge
    | @snap function _ _ _ _ _ name value grid fails =>
        obtain ⟨hline, hlarge⟩ := snap_fault_iff.mp ⟨_, fails⟩
        rw [eq_snap_of_ofName? name]
        exact .grid value grid hline hlarge
  · intro h
    cases h with
    | rate fps large =>
        obtain ⟨fault, h⟩ := (seconds_fault_iff hfps).mpr ⟨rfl, _, fps, large⟩
        exact ⟨fault, .seconds h⟩
    | grid value grid line large =>
        obtain ⟨fault, h⟩ := snap_fault_iff.mpr ⟨line, large⟩
        exact ⟨fault, .snap rfl value grid h⟩

end

end Expr

/-- At a frame rate above zero, a formula has a value, waits for a time or is reported as wrong,
unless its evaluation comes to a part where the arithmetic of doubles breaks down. -/
theorem evaluateTime_breaks_iff {known : Known Float} (hfps : known.fps.isPositive = true)
    (text : String) :
    (∃ fault, evaluateTime known text = .error (.fault fault)) ↔
      ∃ e part, Expr.ofText text = .ok e ∧ Expr.Reaches known part e ∧ Expr.Breaks known part := by
  cases he : Expr.ofText text with
  | error fault =>
      have hwrong : evaluateTime known text = .error (.wrong fault) := by
        rw [evaluateTime, he]
      rw [hwrong]
      exact iff_of_false nofun nofun
  | ok e =>
      have hfault : ∀ fault, evaluateTime known text = .error (.fault fault) ↔
          e.evaluate known = .error (.fault fault) := by
        intro fault
        rw [evaluateTime_of_ok he]
        cases e.evaluate known with
        | ok t => exact iff_of_false nofun nofun
        | error stop => cases stop <;> simp [Except.mapError, Stop.mapWrong]
      constructor
      · rintro ⟨fault, h⟩
        obtain ⟨part, hreaches, hfails⟩ := Expr.evaluate_fault_iff.mp ((hfault fault).mp h)
        exact ⟨e, part, rfl, hreaches, (Expr.fails_iff_breaks hfps).mp ⟨fault, hfails⟩⟩
      · rintro ⟨_, part, ⟨⟩, hreaches, hbreaks⟩
        obtain ⟨fault, hfails⟩ := (Expr.fails_iff_breaks hfps).mpr hbreaks
        exact ⟨fault, (hfault fault).mpr (Expr.evaluate_fault_iff.mpr ⟨part, hreaches, hfails⟩)⟩

/-! ## A large time and a fine grid -/

/-- The scene before ends late. -/
def afterLong : Known Float := { fps := .int 30, prevEnd := some 1e308 }

theorem evaluateTime_breaks_snapped : afterLong.fps.isPositive = true ∧
    ∃ e part, Expr.ofText "snap(prev.end, 0.1)" = .ok e ∧ Expr.Reaches afterLong part e ∧
      Expr.Breaks afterLong part := by
  have hfps : afterLong.fps.isPositive = true := rfl
  exact ⟨hfps, (evaluateTime_breaks_iff hfps _).mp ⟨.infinityToInteger, by decide +kernel⟩⟩

/-- What comes of it is no report of a wrong formula. -/
theorem evaluateTime_snapped : evaluateTime afterLong "snap(prev.end, 0.1)" =
    .error (.fault .infinityToInteger) := by
  decide +kernel

end Cuesheet
