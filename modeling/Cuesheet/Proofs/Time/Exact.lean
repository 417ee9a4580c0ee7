import Cuesheet.Time.Scalar
import Mathlib.Algebra.Order.Ring.Rat

/-!
# Exact times

Fractions as times. No operation rounds, and what is not a fraction is taken for zero or has no
value. Whatever is said for all arithmetics on times can be looked at with these.

Where sums do not depend on their order and nothing is lost in them (`TimeScalar.Exact`), as with
fractions (`exact_rat`), times that are all moved by the same time keep their order, and the latest
of them stays the latest (`latest?_moved`).
-/

namespace Cuesheet

/-- The fraction that a literal spells, zero for infinities and what is no number. -/
def RealLiteral.toRat : RealLiteral → Rat
  | .nan => 0
  | .infinite _ => 0
  | .finite negative mantissa exponent =>
    let size : Rat := mantissa * 10 ^ exponent
    if negative then -size else size

/-- The integer nearest to a fraction, a tie to the even one. -/
def roundRat (a : Rat) : Int :=
  let below := a.floor
  let rest := a - below
  if rest < 1 / 2 || (rest = 1 / 2 && below % 2 = 0) then below else below + 1

/-- Times as fractions. -/
instance : TimeScalar Rat where
  ofLiteral := RealLiteral.toRat
  ofNumber
    | .int n => .ok n
    | .real _ => .error .nanToInteger
  ofInt n := n
  add := (· + ·)
  sub := (· - ·)
  mul := (· * ·)
  div := (· / ·)
  neg := (- ·)
  lt a b := a < b
  le a b := a ≤ b
  beq a b := a == b
  floor a := .ok a.floor
  round a := .ok (roundRat a)
  mod a b := a - b * (a / b).floor
  text a := Number.intText a.num ++ "/" ++ Number.intText a.den
  fullText a := Number.intText a.num ++ "/" ++ Number.intText a.den

namespace TimeScalar

variable {T : Type} [TimeScalar T]

/-- Times can be added up in any order, and adding the same time to two of them keeps their
order. -/
structure Exact (T : Type) [TimeScalar T] : Prop where
  add_comm : ∀ a b : T, add a b = add b a
  add_assoc : ∀ a b c : T, add (add a b) c = add a (add b c)
  lt_add : ∀ a b d : T, lt (add a d) (add b d) = lt a b

theorem exact_rat : Exact Rat where
  add_comm := Rat.add_comm
  add_assoc := Rat.add_assoc
  lt_add _ _ d := decide_eq_decide.mpr (add_lt_add_iff_right d)

namespace Exact

variable (exact : Exact T)
include exact

theorem add_right_comm (a b c : T) : add (add a b) c = add (add a c) b := by
  rw [exact.add_assoc, exact.add_comm b c, ← exact.add_assoc]

theorem later_moved (a b d : T) : later (add a d) (add b d) = add (later a b) d := by
  unfold later
  rw [exact.lt_add]
  split <;> rfl

theorem laterEnd_moved (x y : Option T) (d : T) :
    laterEnd (x.map (add · d)) (y.map (add · d)) = (laterEnd x y).map (add · d) := by
  cases x with
  | none => rfl
  | some a =>
      cases y with
      | none => rfl
      | some b => exact congrArg some (exact.later_moved a b d)

theorem latest?_moved (l : List T) (d : T) :
    latest? (l.map (add · d)) = (latest? l).map (add · d) := by
  cases l with
  | nil => rfl
  | cons t rest =>
      refine congrArg some ?_
      induction rest generalizing t with
      | nil => rfl
      | cons u rest ih => rw [List.map_cons, List.foldl_cons, exact.later_moved, ih, List.foldl_cons]

end Exact

end TimeScalar

end Cuesheet
