import Cuesheet.Number.Notation
import Cuesheet.Text.Quoted

/-!
# Why a file cannot be used

Faults that the system reports carry its error number and the name as it was given.
-/

namespace Cuesheet

/-- Why a file cannot be read or written. -/
inductive FileFault where
  | missing (name : String)
  | occupied (name : String)
  | notADirectory (name : String)
  | isADirectory (name : String)
  | nameTooLong (name : String)
  /-- The name holds the character zero. -/
  | nullByte
  /-- The bytes are not text. -/
  | notText
  /-- Any other number with its wording. -/
  | other (number : Nat) (words name : String)
  deriving DecidableEq, Repr

namespace FileFault

def numbered (number : Nat) (words name : String) : String :=
  "[Errno " ++ Number.intText number ++ "] " ++ words ++ ": " ++ Text.quoted name

def message : FileFault → String
  | missing name => numbered 2 "No such file or directory" name
  | occupied name => numbered 17 "File exists" name
  | notADirectory name => numbered 20 "Not a directory" name
  | isADirectory name => numbered 21 "Is a directory" name
  | nameTooLong name => numbered 36 "File name too long" name
  | nullByte => "embedded null byte"
  | notText => "not valid UTF-8"
  | other number words name => numbered number words name

def ofNumber (number : Nat) (words name : String) : FileFault :=
  match number with
  | 2 => missing name
  | 17 => occupied name
  | 20 => notADirectory name
  | 21 => isADirectory name
  | 36 => nameTooLong name
  | _ => other number words name

/-- Whether a fault comes from the system, as opposed to the name or the bytes. -/
def isSystem : FileFault → Bool
  | nullByte => false
  | notText => false
  | _ => true

end FileFault

end Cuesheet
