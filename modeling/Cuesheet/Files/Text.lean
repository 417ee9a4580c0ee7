import Cuesheet.Files.Fault

/-!
# Text files

A text file holds UTF-8. Every line end is read as a line feed.
-/

namespace Cuesheet

/-- Line ends as line feeds: a carriage return, alone or with a line feed after it, is one. -/
def unifyLines : List Char → List Char
  | [] => []
  | '\r' :: '\n' :: rest => '\n' :: unifyLines rest
  | '\r' :: rest => '\n' :: unifyLines rest
  | c :: rest => c :: unifyLines rest

theorem unifyLines_id {cs : List Char} (h : '\r' ∉ cs) : unifyLines cs = cs := by
  fun_induction unifyLines cs with
  | case1 => rfl
  | case2 => simp at h
  | case3 => simp at h
  | case4 c rest _ _ ih => simp [ih (fun hm => h (List.mem_cons_of_mem _ hm))]

def decodeText (bytes : ByteArray) : Except FileFault String :=
  match String.fromUTF8? bytes with
  | none => .error .notText
  | some s => .ok (String.ofList (unifyLines s.toList))

end Cuesheet
