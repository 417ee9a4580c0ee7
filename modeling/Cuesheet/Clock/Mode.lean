/-!
# Clock modes

A live clock runs on; a bounded one ends at its duration or starts over.
-/

namespace Cuesheet

inductive ClockMode where
  | live
  | bounded
  deriving DecidableEq, Repr, Inhabited

namespace ClockMode

def text : ClockMode → String
  | live => "live"
  | bounded => "bounded"

def ofString? (s : String) : Option ClockMode :=
  if s == "live" then some .live else if s == "bounded" then some .bounded else none

/-- The names of all modes, in messages. -/
def choices : String := "('live', 'bounded')"

theorem ofString?_text (m : ClockMode) : ofString? m.text = some m := by cases m <;> rfl

end ClockMode

end Cuesheet
