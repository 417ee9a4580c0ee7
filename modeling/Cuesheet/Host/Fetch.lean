import Cuesheet.Files.Parents
import Cuesheet.Host.Source
import Cuesheet.Host.Url

/-!
# Fetching markup

Markup is taken as it is, read from a file, or asked for at a URL. A URL that does not answer with
success fails like a file that cannot be read; bytes that are no text and names that no file can
have are faults of another kind, which are passed on.
-/

namespace Cuesheet

/-- What a URL answers. -/
structure Response where
  status : Nat
  location : Option String := none
  text : String
  deriving DecidableEq, Repr

namespace Response

def isSuccess (r : Response) : Bool := 200 ≤ r.status && r.status ≤ 299

/-- Where an answer leads, if it is a redirection that says so. -/
def redirection? (r : Response) : Option String :=
  if [301, 302, 303, 307, 308].contains r.status then r.location else none

end Response

/-- An answer, or what kept it from coming. -/
inductive Reply where
  | response (r : Response)
  | failure (message : String)
  deriving DecidableEq, Repr

inductive Fetched where
  | text (s : String)
  /-- Nothing was read, for a reason that is reported. -/
  | failed (message : String)
  /-- Nothing was read, for a reason that is passed on. -/
  | broken (fault : FileFault)
  deriving DecidableEq, Repr

namespace Fetched

def failure (reason : String) : Fetched := .failed ("Failed to load VML: " ++ reason)

/-- What became of reading a file. -/
def ofFile : Except FileFault String → Fetched
  | .ok s => .text s
  | .error fault => if fault.isSystem then failure fault.message else .broken fault

/-- What became of asking a URL. -/
def ofReply : Reply → Fetched
  | .failure message => failure message
  | .response r => if r.isSuccess then .text r.text else failure (Number.intText r.status)

end Fetched

/-- How many redirections are followed. -/
def maxRedirections : Nat := 20

/-- Asks a URL, and where its answer leads, as long as redirections are left to follow. -/
def follow {m : Type → Type} [Monad m] (web : String → m Reply) : Nat → String → m Reply
  | left, url => do
    let reply ← web url
    match reply with
    | .failure _ => return reply
    | .response r =>
      match r.redirection?, left with
      | none, _ => return reply
      | some _, 0 => return .failure "Exceeded maximum allowed redirects."
      | some location, left + 1 => follow web left (Url.redirect url location)

namespace Source

/-- Fetches the markup of a source. Redirections are only followed if asked for. -/
def fetch {m : Type → Type} [Monad m] (read : String → m (Except FileFault String))
    (web : String → m Reply) (redirects : Bool) : Source → m Fetched
  | .inline s => return .text s
  | .url address => do
    return .ofReply (← if redirects then follow web maxRedirections address else web address)
  | .file path => return .ofFile (← read (Path.ofString path).text)

end Source

end Cuesheet
