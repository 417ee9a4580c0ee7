import Cuesheet.Text.Ranges

/-!
# Blank characters, trimming and words

Blank characters are the white space and the separators of the Unicode tables: besides the
ASCII blanks the information separators, the next-line control, the no-break space and the
spaces and separators of the general punctuation block. Texts are trimmed of them at both
ends and split into words at them; a run of blanks counts once.
-/

namespace Cuesheet.Text

/-- The code points of the blank characters. -/
def blankRanges : Ranges :=
  [(9, 13), (28, 32), (133, 133), (160, 160), (5760, 5760), (8192, 8202), (8232, 8233),
   (8239, 8239), (8287, 8287), (12288, 12288)]

def isBlank (c : Char) : Bool := blankRanges.containsChar c

/-- Every character that core counts as white space is blank. -/
theorem isBlank_of_isWhitespace {c : Char} (h : c.isWhitespace = true) : isBlank c = true := by
  simp only [Char.isWhitespace, Bool.or_eq_true, decide_eq_true_eq] at h
  rcases h with ((rfl | rfl) | rfl) | rfl <;> decide

/-! ## Trimming -/

/-- The characters after the blank ones in front. -/
def trimFront (cs : List Char) : List Char := cs.dropWhile isBlank

/-- The characters without the blank ones at either end. -/
def trimChars (cs : List Char) : List Char := (trimFront (trimFront cs).reverse).reverse

/-- The text without the blank characters at either end. -/
def trim (s : String) : String := String.ofList (trimChars s.toList)

theorem head_trimFront {cs rest : List Char} {c : Char} (h : trimFront cs = c :: rest) :
    isBlank c = false := by
  have := List.head?_dropWhile_not isBlank cs
  simp only [trimFront] at h
  simpa [h] using this

/-! ## Words -/

/-- The words of the characters: the runs of characters that are not blank. The first argument
collects the word being read, last character first. -/
def wordsFrom : List Char → List Char → List String
  | word, [] => if word.isEmpty then [] else [String.ofList word.reverse]
  | word, c :: rest =>
    if isBlank c then
      if word.isEmpty then wordsFrom [] rest
      else String.ofList word.reverse :: wordsFrom [] rest
    else wordsFrom (c :: word) rest

def words (s : String) : List String := wordsFrom [] s.toList

/-- The text with every run of blanks written as one space and none at the ends. -/
def collapse (s : String) : String := String.intercalate " " (words s)

end Cuesheet.Text
