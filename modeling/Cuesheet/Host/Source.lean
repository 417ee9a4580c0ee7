import Cuesheet.Text.Blank

/-!
# Where markup comes from

A source is markup itself if it begins with an angle bracket, a URL if it begins with `http://` or
`https://`, and the path of a file otherwise.
-/

namespace Cuesheet

/-- The places markup may come from. -/
inductive Source where
  | inline (text : String)
  | url (url : String)
  | file (path : String)
  deriving DecidableEq, Repr

namespace Source

def isUrl (s : String) : Bool := "http://".toList.isPrefixOf s.toList
  || "https://".toList.isPrefixOf s.toList

def isInline (s : String) : Bool := (Text.trimFront s.toList).head? == some '<'

/-- The place a source names. -/
def ofString (s : String) : Source :=
  if isInline s then .inline s else if isUrl s then .url s else .file s

end Source

end Cuesheet
