import Cuesheet.Expr.Parser
import Cuesheet.Proofs.Data.Outcomes

/-!
# The grammar of formulas

The grammar as an inductive relation between tokens and formulas, one rule for each alternative.
What is repeated is added on the right of what stands already, so operators of one strength group
to the left.

`ofTokens_grammar` is the main statement: tokens are read as a formula exactly if the grammar
derives that formula from all of them. Its two halves are about what stands in front of some
tokens: what is read there is derived (`expression_sound`), and what is derived is read if nothing
behind it can go on with it (`IsExpression.read`).
-/

namespace Cuesheet

namespace Expr

/-- The operators of an expression. -/
abbrev IsSum (o : Operator) : Prop := o = .add ∨ o = .sub

/-- The operators of a term. -/
abbrev IsProduct (o : Operator) : Prop := o = .mul ∨ o = .div

mutual

/-- `expression := term (('+' | '-') term)*` -/
inductive IsExpression : List Token → Expr → Prop
  | term {ts e} (h : IsTerm ts e) : IsExpression ts e
  | more {ls rs o l r} (left : IsExpression ls l) (ho : IsSum o) (right : IsTerm rs r) :
      IsExpression (ls ++ .op o :: rs) (.binary o l r)

/-- `term := unary (('*' | '/') unary)*` -/
inductive IsTerm : List Token → Expr → Prop
  | unary {ts e} (h : IsUnary ts e) : IsTerm ts e
  | more {ls rs o l r} (left : IsTerm ls l) (ho : IsProduct o) (right : IsUnary rs r) :
      IsTerm (ls ++ .op o :: rs) (.binary o l r)

/-- `unary := ('+' | '-') unary | primary` -/
inductive IsUnary : List Token → Expr → Prop
  | signed {ts o e} (ho : IsSum o) (h : IsUnary ts e) :
      IsUnary (.op o :: ts) (.signed (o = .sub) e)
  | primary {ts e} (h : IsPrimary ts e) : IsUnary ts e

/-- `primary := number | reference | '(' expression ')'` -/
inductive IsPrimary : List Token → Expr → Prop
  | number (value : RealLiteral) (unit : Option TimeUnit) :
      IsPrimary [.number value unit] (.number value unit)
  | reference {ts e} (h : IsReference ts e) : IsPrimary ts e
  | group {ts e} (h : IsExpression ts e) : IsPrimary (.openParen :: ts ++ [.closeParen]) e

/-- `reference := name ('(' [expressions] ')')? ('.' name)*` -/
inductive IsReference : List Token → Expr → Prop
  | name (id : String) : IsReference [.name id] (.name id)
  | call {ts es} (id : String) (h : IsArguments ts es) :
      IsReference (.name id :: .openParen :: ts ++ [.closeParen]) (.call id es)
  | property {ts e} (h : IsReference ts e) (id : String) :
      IsReference (ts ++ [.dot, .name id]) (.property e id)

/-- The arguments of a call, of which there may be none. -/
inductive IsArguments : List Token → List Expr → Prop
  | none : IsArguments [] []
  | some {ts es} (h : IsExpressions ts es) : IsArguments ts es

/-- `expressions := expression (',' expression)*` -/
inductive IsExpressions : List Token → List Expr → Prop
  | last {ts e} (h : IsExpression ts e) : IsExpressions ts [e]
  | more {ts ts' e es} (first : IsExpression ts e) (rest : IsExpressions ts' es) :
      IsExpressions (ts ++ .comma :: ts') (e :: es)

end

/-! ## Reading, without the bounds

What a part of the parser returns carries the proof that the rest is shorter. `bare` leaves it
out, and each part is an equation between bare results. -/

/-- What is read and the rest, without what is known about its length. -/
def bare {α : Type} {p : List Token → Prop} :
    Except SyntaxFault (α × { rest : List Token // p rest }) → Except SyntaxFault (α × List Token)
  | .error fault => .error fault
  | .ok (a, rest) => .ok (a, rest.1)

theorem of_bare {α : Type} {p : List Token → Prop} {a : α} {rest : List Token}
    {r : Except SyntaxFault (α × { rest : List Token // p rest })} (h : bare r = .ok (a, rest)) :
    p rest := by
  rcases r with fault | ⟨a', rest', hp⟩
  · cases h
  · cases h
    exact hp

theorem bare_expression (ts : List Token) :
    bare (expression ts) = (bare (term ts)).bind fun r => bare (moreTerms r.1 r.2) := by
  rw [expression]
  rcases term ts with fault | ⟨left, rest, h⟩
  · rfl
  · dsimp only [bare, Except.bind]
    rcases moreTerms left rest with fault | ⟨e, rest', h'⟩ <;> rfl

theorem bare_term (ts : List Token) :
    bare (term ts) = (bare (unary ts)).bind fun r => bare (moreFactors r.1 r.2) := by
  rw [term]
  rcases unary ts with fault | ⟨left, rest, h⟩
  · rfl
  · dsimp only [bare, Except.bind]
    rcases moreFactors left rest with fault | ⟨e, rest', h'⟩ <;> rfl

theorem bare_moreTerms {o : Operator} (ho : IsSum o) (left : Expr) (tail : List Token) :
    bare (moreTerms left (.op o :: tail)) =
      (bare (term tail)).bind fun r => bare (moreTerms (.binary o left r.1) r.2) := by
  rw [moreTerms, if_pos ho]
  rcases term tail with fault | ⟨right, rest, h⟩
  · rfl
  · dsimp only [bare, Except.bind]
    rcases moreTerms (.binary o left right) rest with fault | ⟨e, rest', h'⟩ <;> rfl

theorem bare_moreFactors {o : Operator} (ho : IsProduct o) (left : Expr) (tail : List Token) :
    bare (moreFactors left (.op o :: tail)) =
      (bare (unary tail)).bind fun r => bare (moreFactors (.binary o left r.1) r.2) := by
  rw [moreFactors, if_pos ho]
  rcases unary tail with fault | ⟨right, rest, h⟩
  · rfl
  · dsimp only [bare, Except.bind]
    rcases moreFactors (.binary o left right) rest with fault | ⟨e, rest', h'⟩ <;> rfl

theorem moreTerms_stop (left : Expr) {ts : List Token}
    (h : ∀ o, ts.head? = some (.op o) → ¬ IsSum o) : bare (moreTerms left ts) = .ok (left, ts) := by
  cases ts with
  | nil =>
      rw [moreTerms]
      · rfl
      · simp
  | cons t tail =>
      cases t with
      | op o => rw [moreTerms, if_neg (h o rfl)]; rfl
      | _ =>
          rw [moreTerms]
          · rfl
          · simp

theorem moreFactors_stop (left : Expr) {ts : List Token}
    (h : ∀ o, ts.head? = some (.op o) → ¬ IsProduct o) :
    bare (moreFactors left ts) = .ok (left, ts) := by
  cases ts with
  | nil =>
      rw [moreFactors]
      · rfl
      · simp
  | cons t tail =>
      cases t with
      | op o => rw [moreFactors, if_neg (h o rfl)]; rfl
      | _ =>
          rw [moreFactors]
          · rfl
          · simp

theorem bare_unary {o : Operator} (ho : IsSum o) (tail : List Token) :
    bare (unary (.op o :: tail)) =
      (bare (unary tail)).bind fun r => .ok (.signed (o = .sub) r.1, r.2) := by
  rw [unary, if_pos ho]
  rcases unary tail with fault | ⟨e, rest, h⟩ <;> rfl

/-- What does not begin with an operator is read as a primary. -/
theorem unary_of_primary {ts : List Token} {r : Expr × List Token}
    (h : bare (primary ts) = .ok r) : bare (unary ts) = .ok r := by
  cases ts with
  | nil => rw [primary] at h; cases h
  | cons t tail =>
      cases t with
      | op o =>
          rw [primary] at h
          · cases h
          all_goals simp
      | _ =>
          rw [unary]
          · exact h
          · simp

theorem bare_primary_group (tail : List Token) :
    bare (primary (.openParen :: tail)) =
      (bare (expression tail)).bind fun r =>
        (closing r.2).bind fun rest => .ok (r.1, rest.1) := by
  rw [primary]
  rcases expression tail with fault | ⟨e, rest, h⟩
  · rfl
  · dsimp only [bare, Except.bind]
    rcases closing rest with fault | ⟨rest', h'⟩ <;> rfl

theorem bare_primary_call (id : String) (tail : List Token) :
    bare (primary (.name id :: .openParen :: tail)) =
      (bare (arguments tail)).bind fun r =>
        (closing r.2).bind fun rest => bare (properties (.call id r.1) rest.1) := by
  rw [primary]
  rcases arguments tail with fault | ⟨args, rest, h⟩
  · rfl
  · dsimp only [bare, Except.bind]
    rcases closing rest with fault | ⟨rest', h'⟩
    · rfl
    · dsimp only
      rcases properties (.call id args) rest' with fault | ⟨e, rest'', h''⟩ <;> rfl

theorem bare_primary_name (id : String) {tail : List Token} (h : tail.head? ≠ some .openParen) :
    bare (primary (.name id :: tail)) = bare (properties (.name id) tail) := by
  rw [primary]
  · rcases properties (.name id) tail with fault | ⟨e, rest, h⟩ <;> rfl
  · rintro tail' rfl
    exact h rfl

theorem bare_properties (target : Expr) (id : String) (rest : List Token) :
    bare (properties target (.dot :: .name id :: rest)) =
      bare (properties (.property target id) rest) := by
  rw [properties]
  rcases properties (.property target id) rest with fault | ⟨e, rest', h⟩ <;> rfl

theorem properties_stop (target : Expr) {ts : List Token} (h : ts.head? ≠ some .dot) :
    bare (properties target ts) = .ok (target, ts) := by
  rw [properties]
  · rfl
  · rintro id rest rfl
    exact h rfl
  · rintro rest rfl
    exact h rfl

theorem bare_someArguments (ts : List Token) :
    bare (someArguments ts) = (bare (expression ts)).bind fun r =>
      match comma? r.2 with
      | none => .ok ([r.1], r.2)
      | some after => (bare (someArguments after.1)).bind fun r' => .ok (r.1 :: r'.1, r'.2) := by
  rw [someArguments]
  rcases expression ts with fault | ⟨e, rest, h⟩
  · rfl
  · dsimp only [bare, Except.bind]
    rcases comma? rest with - | ⟨after, h'⟩
    · rfl
    · dsimp only
      rcases someArguments after with fault | ⟨es, rest', h''⟩ <;> rfl

theorem arguments_of_someArguments {ts : List Token} {r : List Expr × List Token}
    (h : bare (someArguments ts) = .ok r) : bare (arguments ts) = .ok r := by
  by_cases hclose : ∃ rest, ts = .closeParen :: rest
  · obtain ⟨rest, rfl⟩ := hclose
    rw [bare_someArguments, bare_expression, bare_term, unary, primary] at h
    · cases h
    all_goals simp
  · rw [arguments]
    · rcases hsome : someArguments ts with fault | ⟨es, rest, hlt⟩
      · rw [hsome] at h; cases h
      · rw [hsome] at h; exact h
    · exact fun rest hts => hclose ⟨rest, hts⟩

/-! ## What is derived is read

A part of the parser reads as far as it can. So what is derived is read if what stands behind it
cannot continue it; and what would continue it on the right is read with the derived formula on the
left, which is how derivations that group to the left are followed by a parser that loops. -/

/-- What begins neither arguments nor a property. -/
def Detached (rest : List Token) : Prop := rest.head? ≠ some .openParen ∧ rest.head? ≠ some .dot

/-- What does not begin with a further factor either. -/
def Apart (rest : List Token) : Prop :=
  Detached rest ∧ ∀ o, rest.head? = some (.op o) → IsSum o

theorem Apart.not_product {rest : List Token} (h : Apart rest) {o : Operator}
    (ho : rest.head? = some (.op o)) : ¬ IsProduct o := by
  rcases h.2 o ho with rfl | rfl <;> decide

theorem apart_closeParen (rest : List Token) : Apart (.closeParen :: rest) :=
  ⟨⟨nofun, nofun⟩, fun _ h => nomatch h⟩

theorem apart_comma (rest : List Token) : Apart (.comma :: rest) :=
  ⟨⟨nofun, nofun⟩, fun _ h => nomatch h⟩

mutual

theorem IsExpression.read : ∀ {ts : List Token} {e : Expr}, IsExpression ts e →
    ∀ {rest : List Token}, Apart rest → bare (expression (ts ++ rest)) = bare (moreTerms e rest)
  | _, e, .term h, rest, hrest => by
      rw [bare_expression, h.read hrest.1, moreFactors_stop e fun o => hrest.not_product]
      rfl
  | _, _, @IsExpression.more ls rs o l r left ho right, rest, hrest => by
      have hop : Apart (.op o :: rs ++ rest) := by
        refine ⟨⟨nofun, nofun⟩, ?_⟩
        rintro o' ⟨⟩
        exact ho
      rw [List.append_assoc, left.read hop, List.cons_append, bare_moreTerms ho,
        right.read hrest.1, moreFactors_stop r fun o' => hrest.not_product]
      rfl
termination_by ts => (ts.length, 4)

theorem IsTerm.read : ∀ {ts : List Token} {e : Expr}, IsTerm ts e →
    ∀ {rest : List Token}, Detached rest → bare (term (ts ++ rest)) = bare (moreFactors e rest)
  | _, _, .unary h, rest, hrest => by
      rw [bare_term, h.read hrest]
      rfl
  | _, _, @IsTerm.more ls rs o l r left ho right, rest, hrest => by
      have hop : Detached (.op o :: rs ++ rest) := ⟨nofun, nofun⟩
      rw [List.append_assoc, left.read hop, List.cons_append, bare_moreFactors ho,
        right.read hrest]
      rfl
termination_by ts => (ts.length, 3)

theorem IsUnary.read : ∀ {ts : List Token} {e : Expr}, IsUnary ts e →
    ∀ {rest : List Token}, Detached rest → bare (unary (ts ++ rest)) = .ok (e, rest)
  | _, _, .signed ho h, rest, hrest => by
      rw [List.cons_append, bare_unary ho, h.read hrest]
      rfl
  | _, _, .primary h, rest, hrest => unary_of_primary (h.read hrest)
termination_by ts => (ts.length, 2)

theorem IsPrimary.read : ∀ {ts : List Token} {e : Expr}, IsPrimary ts e →
    ∀ {rest : List Token}, Detached rest → bare (primary (ts ++ rest)) = .ok (e, rest)
  | _, _, .number value unit, rest, hrest => by
      rw [List.singleton_append, primary]
      rfl
  | _, _, .reference h, rest, hrest => by rw [h.read hrest.1, properties_stop _ hrest.2]
  | _, _, @IsPrimary.group ts e h, rest, hrest => by
      have hclose := h.read (apart_closeParen rest)
      rw [moreTerms_stop _ (by simp)] at hclose
      rw [List.append_assoc, List.cons_append, List.singleton_append, bare_primary_group, hclose]
      rfl
termination_by ts => (ts.length, 1)

theorem IsReference.read : ∀ {ts : List Token} {e : Expr}, IsReference ts e →
    ∀ {rest : List Token}, rest.head? ≠ some .openParen →
      bare (primary (ts ++ rest)) = bare (properties e rest)
  | _, _, .name id, rest, hrest => bare_primary_name id hrest
  | _, _, @IsReference.call ts es id h, rest, hrest => by
      rw [List.append_assoc, List.cons_append, List.cons_append, List.singleton_append,
        bare_primary_call, h.read]
      rfl
  | _, _, @IsReference.property ts e h id, rest, hrest => by
      rw [List.append_assoc, h.read (by simp)]
      exact bare_properties e id rest
termination_by ts => (ts.length, 0)

theorem IsArguments.read : ∀ {ts : List Token} {es : List Expr}, IsArguments ts es →
    ∀ {rest : List Token},
      bare (arguments (ts ++ .closeParen :: rest)) = .ok (es, .closeParen :: rest)
  | _, _, .none, rest => by
      rw [List.nil_append, arguments]
      rfl
  | _, _, .some h, rest => arguments_of_someArguments h.read
termination_by ts => (ts.length, 6)

theorem IsExpressions.read : ∀ {ts : List Token} {es : List Expr}, IsExpressions ts es →
    ∀ {rest : List Token},
      bare (someArguments (ts ++ .closeParen :: rest)) = .ok (es, .closeParen :: rest)
  | _, _, .last h, rest => by
      rw [bare_someArguments, h.read (apart_closeParen rest), moreTerms_stop _ (by simp)]
      rfl
  | _, _, @IsExpressions.more ts ts' e es first others, rest => by
      rw [List.append_assoc, List.cons_append, bare_someArguments, first.read (apart_comma _),
        moreTerms_stop _ (by simp)]
      simp only [Except.bind, comma?, others.read]
termination_by ts => (ts.length, 5)

end

/-! ## What is read is derived -/

theorem properties_sound {target e : Expr} {ts rest pre : List Token}
    (h : bare (properties target ts) = .ok (e, rest)) (htarget : IsReference pre target) :
    ∃ read, ts = read ++ rest ∧ IsReference (pre ++ read) e := by
  by_cases hdot : ts.head? = some .dot
  · obtain ⟨tail, rfl⟩ := List.head?_eq_some_iff.mp hdot
    cases tail with
    | nil => rw [properties] at h <;> cases h
    | cons t tail =>
        cases t with
        | name id =>
            rw [bare_properties] at h
            obtain ⟨read, rfl, he⟩ := properties_sound h (htarget.property id)
            exact ⟨.dot :: .name id :: read, rfl, by simpa using he⟩
        | _ => rw [properties] at h <;> cases h
  · rw [properties_stop target hdot] at h
    cases h
    exact ⟨[], rfl, by rwa [List.append_nil]⟩
termination_by ts.length

theorem of_closing {α : Type} {ts : List Token} {f : List Token → Except SyntaxFault α} {a : α}
    (h : ((closing ts).bind fun rest => f rest.1) = .ok a) :
    ∃ rest, ts = .closeParen :: rest ∧ f rest = .ok a := by
  cases ts with
  | nil => cases h
  | cons t tail =>
      cases t with
      | closeParen => exact ⟨tail, rfl, h⟩
      | _ => cases h

theorem comma?_some {ts : List Token} {rest : { rest : List Token // rest.length < ts.length }}
    (h : comma? ts = some rest) : ts = .comma :: rest.1 := by
  cases ts with
  | nil => cases h
  | cons t tail =>
      cases t with
      | comma => cases h; rfl
      | _ => cases h

mutual

theorem expression_sound {ts rest : List Token} {e : Expr}
    (h : bare (expression ts) = .ok (e, rest)) :
    ∃ read, ts = read ++ rest ∧ IsExpression read e := by
  rw [bare_expression] at h
  obtain ⟨⟨l, middle⟩, hterm, hmore⟩ := ok_of_bind h
  have hlt := of_bare hterm
  obtain ⟨first, hts, hl⟩ := term_sound hterm
  obtain ⟨second, hmiddle, he⟩ := moreTerms_sound hmore (.term hl)
  exact ⟨first ++ second, by simp_all, he⟩
termination_by (ts.length, 4)

theorem moreTerms_sound {ts rest pre : List Token} {l e : Expr}
    (h : bare (moreTerms l ts) = .ok (e, rest)) (hl : IsExpression pre l) :
    ∃ read, ts = read ++ rest ∧ IsExpression (pre ++ read) e := by
  by_cases hop : ∃ o, ts.head? = some (.op o) ∧ IsSum o
  · obtain ⟨o, hhead, ho⟩ := hop
    obtain ⟨tail, hts⟩ := List.head?_eq_some_iff.mp hhead
    rw [hts, bare_moreTerms ho] at h
    obtain ⟨⟨r, middle⟩, hterm, hmore⟩ := ok_of_bind h
    have hlt := of_bare hterm
    obtain ⟨first, htail, hr⟩ := term_sound hterm
    obtain ⟨second, hmiddle, he⟩ := moreTerms_sound hmore (.more hl ho hr)
    exact ⟨.op o :: first ++ second, by simp_all, by simpa using he⟩
  · rw [moreTerms_stop l fun o hhead ho => hop ⟨o, hhead, ho⟩] at h
    cases h
    exact ⟨[], rfl, by rwa [List.append_nil]⟩
termination_by (ts.length, 0)
decreasing_by all_goals (rw [hts]; simp only [List.length_cons, Prod.lex_def]; omega)

theorem term_sound {ts rest : List Token} {e : Expr} (h : bare (term ts) = .ok (e, rest)) :
    ∃ read, ts = read ++ rest ∧ IsTerm read e := by
  rw [bare_term] at h
  obtain ⟨⟨l, middle⟩, hunary, hmore⟩ := ok_of_bind h
  have hlt := of_bare hunary
  obtain ⟨first, hts, hl⟩ := unary_sound hunary
  obtain ⟨second, hmiddle, he⟩ := moreFactors_sound hmore (.unary hl)
  exact ⟨first ++ second, by simp_all, he⟩
termination_by (ts.length, 3)

theorem moreFactors_sound {ts rest pre : List Token} {l e : Expr}
    (h : bare (moreFactors l ts) = .ok (e, rest)) (hl : IsTerm pre l) :
    ∃ read, ts = read ++ rest ∧ IsTerm (pre ++ read) e := by
  by_cases hop : ∃ o, ts.head? = some (.op o) ∧ IsProduct o
  · obtain ⟨o, hhead, ho⟩ := hop
    obtain ⟨tail, hts⟩ := List.head?_eq_some_iff.mp hhead
    rw [hts, bare_moreFactors ho] at h
    obtain ⟨⟨r, middle⟩, hunary, hmore⟩ := ok_of_bind h
    have hlt := of_bare hunary
    obtain ⟨first, htail, hr⟩ := unary_sound hunary
    obtain ⟨second, hmiddle, he⟩ := moreFactors_sound hmore (.more hl ho hr)
    exact ⟨.op o :: first ++ second, by simp_all, by simpa using he⟩
  · rw [moreFactors_stop l fun o hhead ho => hop ⟨o, hhead, ho⟩] at h
    cases h
    exact ⟨[], rfl, by rwa [List.append_nil]⟩
termination_by (ts.length, 0)
decreasing_by all_goals (rw [hts]; simp only [List.length_cons, Prod.lex_def]; omega)

theorem unary_sound {ts rest : List Token} {e : Expr} (h : bare (unary ts) = .ok (e, rest)) :
    ∃ read, ts = read ++ rest ∧ IsUnary read e := by
  by_cases hop : ∃ o, ts.head? = some (.op o)
  · obtain ⟨o, hhead⟩ := hop
    obtain ⟨tail, hts⟩ := List.head?_eq_some_iff.mp hhead
    by_cases ho : IsSum o
    · rw [hts, bare_unary ho] at h
      obtain ⟨⟨operand, rest'⟩, hoperand, hsigned⟩ := ok_of_bind h
      cases hsigned
      obtain ⟨read, htail, he⟩ := unary_sound hoperand
      exact ⟨.op o :: read, by rw [hts, htail, List.cons_append], .signed ho he⟩
    · rw [hts, unary, if_neg ho] at h
      cases h
  · rw [unary] at h
    · obtain ⟨read, hts, he⟩ := primary_sound h
      exact ⟨read, hts, .primary he⟩
    · rintro o tail rfl
      exact hop ⟨o, rfl⟩
termination_by (ts.length, 2)
decreasing_by
  · simp [hts, Prod.lex_def]
  · simp [Prod.lex_def]

theorem primary_sound {ts rest : List Token} {e : Expr} (h : bare (primary ts) = .ok (e, rest)) :
    ∃ read, ts = read ++ rest ∧ IsPrimary read e := by
  match ts, h with
  | [], h => rw [primary] at h; cases h
  | .number value unit :: tail, h =>
      rw [primary] at h
      cases h
      exact ⟨[.number value unit], rfl, .number value unit⟩
  | .openParen :: tail, h =>
      rw [bare_primary_group] at h
      obtain ⟨⟨e', middle⟩, hinside, h⟩ := ok_of_bind h
      obtain ⟨after, hclose, h⟩ := of_closing (f := fun rest => .ok (e', rest)) h
      cases h
      dsimp only at hclose
      obtain ⟨read, htail, he⟩ := expression_sound hinside
      refine ⟨.openParen :: read ++ [.closeParen], ?_, .group he⟩
      simp [htail, hclose]
  | .name id :: tail, h =>
      by_cases hcall : tail.head? = some .openParen
      · obtain ⟨inside, htail⟩ := List.head?_eq_some_iff.mp hcall
        rw [htail, bare_primary_call] at h
        obtain ⟨⟨es, middle⟩, hargs, h⟩ := ok_of_bind h
        obtain ⟨after, hclose, h⟩ :=
          of_closing (f := fun rest => bare (properties (.call id es) rest)) h
        dsimp only at hclose
        obtain ⟨read, hinside, hes⟩ := arguments_sound hargs
        obtain ⟨chain, hafter, he⟩ := properties_sound h (.call id hes)
        refine ⟨_, ?_, .reference he⟩
        simp [htail, hinside, hclose, hafter]
      · rw [bare_primary_name id hcall] at h
        obtain ⟨chain, htail, he⟩ := properties_sound h (.name id)
        exact ⟨_, by rw [htail]; rfl, .reference he⟩
  | .op o :: tail, h | .closeParen :: tail, h | .dot :: tail, h | .comma :: tail, h =>
      rw [primary] at h
      · cases h
      all_goals nofun
termination_by (ts.length, 1)

theorem arguments_sound {ts rest : List Token} {es : List Expr}
    (h : bare (arguments ts) = .ok (es, rest)) :
    ∃ read, ts = read ++ rest ∧ IsArguments read es := by
  by_cases hclose : ∃ tail, ts = .closeParen :: tail
  · obtain ⟨tail, hts⟩ := hclose
    rw [hts, arguments] at h
    cases h
    exact ⟨[], hts, .none⟩
  · rw [arguments] at h
    · have hsome : bare (someArguments ts) = .ok (es, rest) := by
        rcases hread : someArguments ts with fault | ⟨es', rest', hlt⟩
        · rw [hread] at h; cases h
        · rw [hread] at h; exact h
      obtain ⟨read, hts, hes⟩ := someArguments_sound hsome
      exact ⟨read, hts, .some hes⟩
    · exact fun tail hts => hclose ⟨tail, hts⟩
termination_by (ts.length, 6)

theorem someArguments_sound {ts rest : List Token} {es : List Expr}
    (h : bare (someArguments ts) = .ok (es, rest)) :
    ∃ read, ts = read ++ rest ∧ IsExpressions read es := by
  rw [bare_someArguments] at h
  obtain ⟨⟨e, middle⟩, hfirst, h⟩ := ok_of_bind h
  have hlt := of_bare hfirst
  obtain ⟨first, hts, he⟩ := expression_sound hfirst
  dsimp only at h hlt hts
  cases hcomma : comma? middle with
  | none =>
      rw [hcomma] at h
      cases h
      exact ⟨first, hts, .last he⟩
  | some after =>
      rw [hcomma] at h
      obtain ⟨⟨es', rest'⟩, hothers, h⟩ := ok_of_bind h
      cases h
      have hlt' := after.2
      obtain ⟨others, hafter, hes⟩ := someArguments_sound hothers
      refine ⟨first ++ .comma :: others, ?_, .more he hes⟩
      rw [hts, comma?_some hcomma, hafter]
      simp
termination_by (ts.length, 5)

end

/-! ## The whole of the tokens -/

theorem ofTokens_eq (ts : List Token) :
    ofTokens ts = (bare (expression ts)).bind fun r =>
      match r.2 with
      | [] => .ok r.1
      | t :: _ => .error (.unexpectedToken t) := by
  unfold ofTokens
  rcases expression ts with fault | ⟨e, ⟨_ | ⟨t, rest⟩, h⟩⟩ <;> rfl

theorem ofTokens_ok_iff {ts : List Token} {e : Expr} : ofTokens ts = .ok e ↔ IsExpression ts e := by
  rw [ofTokens_eq]
  constructor
  · intro h
    obtain ⟨⟨e', rest⟩, hread, h⟩ := ok_of_bind h
    cases rest with
    | nil =>
        cases h
        obtain ⟨read, hts, he⟩ := expression_sound hread
        rwa [hts, List.append_nil]
    | cons t rest => cases h
  · intro h
    have hread := @IsExpression.read ts e h [] ⟨⟨nofun, nofun⟩, nofun⟩
    rw [List.append_nil, moreTerms_stop e (by simp)] at hread
    rw [hread]
    rfl

/-- Tokens are read as a formula exactly if the grammar derives it from all of them; it derives no
more than one; and where it derives none, reading them is a fault of syntax. -/
theorem ofTokens_grammar (ts : List Token) :
    (∀ e, ofTokens ts = .ok e ↔ IsExpression ts e) ∧
      (∀ e e', IsExpression ts e → IsExpression ts e' → e = e') ∧
      ((∃ fault, ofTokens ts = .error fault) ↔ ¬ ∃ e, IsExpression ts e) := by
  refine ⟨fun e => ofTokens_ok_iff, fun e e' h h' => ?_, ?_⟩
  · have heq := (ofTokens_ok_iff.mpr h).symm.trans (ofTokens_ok_iff.mpr h')
    exact Except.ok.inj heq
  · cases hread : ofTokens ts with
    | ok e =>
        have he := ofTokens_ok_iff.mp hread
        exact ⟨nofun, fun hnone => absurd ⟨e, he⟩ hnone⟩
    | error fault =>
        refine ⟨fun _ ⟨e, he⟩ => ?_, fun _ => ⟨fault, rfl⟩⟩
        rw [ofTokens_ok_iff.mpr he] at hread
        cases hread

end Expr

end Cuesheet
