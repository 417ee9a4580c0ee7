/-!
# Columns

A text that is shorter than its column is filled up with blanks, before it or after it; a longer
one is left as it is.
-/

namespace Cuesheet.Text

/-- The blanks that a text lacks to a width. -/
def filling (width : Nat) (s : String) : String := String.ofList (List.replicate (width - s.length) ' ')

/-- A text at the left of its column. -/
def padRight (width : Nat) (s : String) : String := s ++ filling width s

/-- A text at the right of its column. -/
def padLeft (width : Nat) (s : String) : String := filling width s ++ s

theorem length_filling (width : Nat) (s : String) :
    (filling width s).length = width - s.length := by
  simp [filling]

theorem length_padRight (width : Nat) (s : String) :
    (padRight width s).length = max width s.length := by
  simp only [padRight, String.length_append, length_filling]
  omega

end Cuesheet.Text
