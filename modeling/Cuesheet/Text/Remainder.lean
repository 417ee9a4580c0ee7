/-!
# What is left of a text

A reader takes characters off the front of a text and returns what is left. That what is left is
shorter is why reading ends; the lemmas here say so for a single character, for readers that run
one after the other and for runs of characters of a class.
-/

namespace Cuesheet.Text

/-! ## One character -/

theorem length_le_self (cs : List Char) : cs.length ≤ cs.length := Nat.le_refl _

theorem length_lt_cons (c : Char) (rest : List Char) : rest.length < (c :: rest).length :=
  Nat.lt_succ_self _

theorem length_lt_cons_of_le (c : Char) {after rest : List Char}
    (h : after.length ≤ rest.length) : after.length < (c :: rest).length :=
  Nat.lt_succ_of_le h

theorem length_lt_cons_of_lt (c : Char) {after rest : List Char}
    (h : after.length < rest.length) : after.length < (c :: rest).length :=
  Nat.lt_succ_of_lt h

theorem length_lt_cons_of_lt_of_lt (c : Char) {last after rest : List Char}
    (h' : last.length < after.length) (h : after.length < rest.length) :
    last.length < (c :: rest).length :=
  Nat.lt_succ_of_lt (Nat.lt_trans h' h)

theorem length_lt_cons_of_lt_of_le (c : Char) {last after rest : List Char}
    (h' : last.length < after.length) (h : after.length ≤ rest.length) :
    last.length < (c :: rest).length :=
  Nat.lt_succ_of_lt (Nat.lt_of_lt_of_le h' h)

theorem length_drop_lt_cons (c : Char) (rest : List Char) (n : Nat) :
    (rest.drop n).length < (c :: rest).length := by
  rw [List.length_drop]
  exact Nat.lt_succ_of_le (Nat.sub_le _ _)

/-! ## Readers in a row -/

theorem length_lt_trans {after rest cs : List Char} (h' : after.length < rest.length)
    (h : rest.length < cs.length) : after.length < cs.length :=
  Nat.lt_trans h' h

theorem length_lt_trans₃ {last after rest cs : List Char} (h'' : last.length < after.length)
    (h' : after.length < rest.length) (h : rest.length < cs.length) : last.length < cs.length :=
  Nat.lt_trans h'' (Nat.lt_trans h' h)

theorem length_le_trans {after rest cs : List Char} (h' : after.length ≤ rest.length)
    (h : rest.length ≤ cs.length) : after.length ≤ cs.length :=
  Nat.le_trans h' h

theorem length_le_of_lt_of_le {after rest cs : List Char} (h' : after.length < rest.length)
    (h : rest.length ≤ cs.length) : after.length ≤ cs.length :=
  Nat.le_of_lt (Nat.lt_of_lt_of_le h' h)

theorem length_le_of_le_of_lt {after rest cs : List Char} (h' : after.length ≤ rest.length)
    (h : rest.length < cs.length) : after.length ≤ cs.length :=
  Nat.le_of_lt (Nat.lt_of_le_of_lt h' h)

theorem length_le_of_lt_of_lt_of_le {last after rest cs : List Char}
    (h'' : last.length < after.length) (h' : after.length < rest.length)
    (h : rest.length ≤ cs.length) : last.length ≤ cs.length :=
  length_le_of_lt_of_le (length_lt_trans h'' h') h

theorem length_lt_of_lt_of_le {after rest cs : List Char} (h' : after.length < rest.length)
    (h : rest.length ≤ cs.length) : after.length < cs.length :=
  Nat.lt_of_lt_of_le h' h

theorem length_le_of_le_of_lt_of_le {last after rest cs : List Char}
    (h'' : last.length ≤ after.length) (h' : after.length < rest.length)
    (h : rest.length ≤ cs.length) : last.length ≤ cs.length :=
  Nat.le_trans h'' (length_le_of_lt_of_le h' h)

/-! ## Runs of characters -/

theorem length_dropWhile_le (p : Char → Bool) (cs : List Char) :
    (cs.dropWhile p).length ≤ cs.length := by
  induction cs with
  | nil => exact Nat.le_refl _
  | cons c rest ih =>
    rw [List.dropWhile_cons]
    split
    · exact Nat.le_succ_of_le ih
    · exact Nat.le_refl _

end Cuesheet.Text
