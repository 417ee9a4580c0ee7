/-!
# Sets of characters given by ranges

The character classes of this library are tables of closed ranges of code points, in
increasing order. Membership is the only question asked of them.
-/

namespace Cuesheet.Text

/-- Closed ranges of code points, in increasing order. -/
abbrev Ranges := List (Nat × Nat)

namespace Ranges

/-- Whether a code point lies in one of the ranges. -/
def contains (ranges : Ranges) (code : Nat) : Bool :=
  ranges.any fun range => range.1 ≤ code && code ≤ range.2

@[simp] theorem contains_nil (code : Nat) : contains [] code = false := rfl

theorem contains_cons (range : Nat × Nat) (ranges : Ranges) (code : Nat) :
    contains (range :: ranges) code
      = ((range.1 ≤ code && code ≤ range.2) || contains ranges code) := rfl

/-- A character is in the class when its code point is in the ranges. -/
def containsChar (ranges : Ranges) (c : Char) : Bool := ranges.contains c.toNat

end Ranges

end Cuesheet.Text
