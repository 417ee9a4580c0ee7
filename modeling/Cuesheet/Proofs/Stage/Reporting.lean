import Cuesheet.Files.Tree
import Cuesheet.Proofs.Host.Loads
import Cuesheet.Proofs.Resolution.Passes
import Cuesheet.Proofs.Stage.Seats

/-!
# What is said about a load

What goes wrong with a load is said to the host of it, and the load gives nothing. That holds of all
that the system or a server can answer, and of what is wrong with markup. Two kinds of faults are
not caught however: bytes that are no text and names that no file can have, and arithmetic that
breaks down. Exactly those come out of a load that counts (`load_raises_iff`); any other gives a
player that is shown, or nothing after one message.
-/

namespace Cuesheet

/-- What the load that counts does with what was fetched. -/
def Fetched.continuation : Fetched → Continuation
  | .text s => if s.toList.all Text.isBlank then .report "No VML found." else .display s
  | .failed message => .report message
  | .broken fault => .broken fault

theorem Timeline.create_ok {T S : Type} [TimeScalar T] (id : String) {settings : ClockSettings T}
    (hmode : (ClockMode.ofString? settings.mode).isSome = true)
    (hfps : settings.fps.isNonpositive = false) :
    ∃ tl : Timeline T S, create id settings = .ok tl := by
  obtain ⟨mode, hmode⟩ := Option.isSome_iff_exists.mp hmode
  unfold create
  rw [hmode, hfps]
  exact ⟨_, rfl⟩

section Sources

variable {read : String → Except FileFault String} {web : String → Reply} {redirects : Bool}
  {source : Source}

/-- What goes wrong with a source and is not reported: the name or the bytes of a file are at fault
and not the system, or the arithmetic of markup breaks down. -/
def Source.Escapes (T : Type) [TimeScalar T] (read : String → Except FileFault String)
    (web : String → Reply) (redirects : Bool) (source : Source) : Prop :=
  (∃ path fault, source = .file path ∧ read (Path.ofString path).text = .error fault ∧
      fault.isSystem = false) ∨
    ∃ text fault, source.fetch (m := Id) read web redirects = .text text ∧
      text.toList.all Text.isBlank = false ∧
      (Composition.ofText text : Except CompositionFault (Composition T)) = .error fault ∧
      fault.isReported = false

theorem Fetched.ofFile_broken_iff (result : Except FileFault String) {fault : FileFault} :
    Fetched.ofFile result = .broken fault ↔ result = .error fault ∧ fault.isSystem = false := by
  unfold Fetched.ofFile Fetched.failure
  cases result with
  | ok s => exact ⟨nofun, nofun⟩
  | error other =>
      dsimp only
      split
      · rename_i hsystem
        refine ⟨nofun, ?_⟩
        rintro ⟨hsame, hnot⟩
        cases hsame
        exact absurd hsystem (Bool.eq_false_iff.mp hnot)
      · rename_i hsystem
        constructor
        · intro h
          cases h
          exact ⟨rfl, Bool.eq_false_iff.mpr hsystem⟩
        · rintro ⟨hsame, -⟩
          cases hsame
          rfl

theorem Fetched.ofReply_ne_broken (reply : Reply) (fault : FileFault) :
    Fetched.ofReply reply ≠ .broken fault := by
  unfold Fetched.ofReply Fetched.failure
  split
  · nofun
  · split <;> nofun

/-- Only a file can be at fault itself. -/
theorem Source.fetch_broken_iff {fault : FileFault} :
    source.fetch (m := Id) read web redirects = .broken fault ↔
      ∃ path, source = .file path ∧ read (Path.ofString path).text = .error fault ∧
        fault.isSystem = false := by
  cases source with
  | inline text => exact ⟨nofun, nofun⟩
  | url address =>
      refine ⟨fun h => absurd h ?_, nofun⟩
      cases redirects with
      | true => exact Fetched.ofReply_ne_broken (follow (m := Id) web maxRedirections address) fault
      | false => exact Fetched.ofReply_ne_broken (web address) fault
  | file path =>
      refine (Fetched.ofFile_broken_iff (read (Path.ofString path).text)).trans ?_
      constructor
      · exact fun h => ⟨path, rfl, h⟩
      · rintro ⟨_, hsame, h⟩
        cases hsame
        exact h

/-- What was fetched and is not reported. -/
def Fetched.Escapes (T : Type) [TimeScalar T] : Fetched → Prop
  | .text s => s.toList.all Text.isBlank = false ∧
      ∃ fault, (Composition.ofText s : Except CompositionFault (Composition T)) = .error fault ∧
        fault.isReported = false
  | .failed _ => False
  | .broken _ => True

theorem Source.escapes_iff {T : Type} [TimeScalar T] : source.Escapes T read web redirects ↔
    (source.fetch (m := Id) read web redirects).Escapes T := by
  constructor
  · rintro (⟨path, fault, h⟩ | ⟨text, fault, hfetched, hblank, hread, hunreported⟩)
    · rw [fetch_broken_iff.mpr ⟨path, h⟩]
      trivial
    · rw [hfetched]
      exact ⟨hblank, fault, hread, hunreported⟩
  · intro h
    cases hfetched : source.fetch (m := Id) read web redirects with
    | text s =>
        rw [hfetched] at h
        obtain ⟨hblank, fault, h⟩ := h
        exact .inr ⟨s, fault, hfetched, hblank, h⟩
    | failed message =>
        rw [hfetched] at h
        cases h
    | broken fault =>
        obtain ⟨path, h⟩ := fetch_broken_iff.mp hfetched
        exact .inl ⟨path, fault, h⟩

end Sources

namespace Stage

variable {T C W : Type} {react : React T C W} {log : W → List (C × Option String)}
  {told : List (C × Option String)} {host key : Nat} {s s' : Stage T C W}

/-- A clock can be made as long as it is asked for in a mode that there is. -/
theorem Goes.openTimeline [TimeScalar T] {I : Stage T C W → Prop} (group : String)
    {settings : ClockSettings T} (hmode : (ClockMode.ofString? settings.mode).isSome = true)
    (hfps : settings.fps.isNonpositive = false)
    (hkeep : ∀ s tl, I s → I { s with timelines := s.timelines ++ [tl] }) :
    Goes I (openTimeline group settings) := by
  obtain ⟨tl, hcreate⟩ := Timeline.create_ok group hmode hfps
  refine .bind .get fun s => ?_
  rw [hcreate]
  split
  · exact .pure _
  · exact .bind (.change fun s => hkeep s tl) fun _ => .pure _

/-! ## Callbacks -/

/-- Callbacks take it when they are told that something is wrong, or that nothing is, and that is
what is written down. They may do anything else, as long as the frame source still takes requests
and no host goes away. -/
structure Takes (react : React T C W) (log : W → List (C × Option String)) : Prop where
  succeeds : ∀ c message s, s.source ≠ .stalled → isOk (react c (.error message) s) = true
  writes : ∀ c message s,
    log (after (react c (.error message)) s).outside = log s.outside ++ [(c, message)]
  silent : ∀ c notice s, (∀ message, notice ≠ .error message) →
    log (after (react c notice) s).outside = log s.outside
  source : ∀ c notice, Keeps (fun s => s.source ≠ .stalled) (react c notice)
  hosts : ∀ c notice n, Keeps (fun s => n < s.hosts.length) (react c notice)

/-- What is written down when a callback, if there is one, is told something. -/
def heard (c : Option C) (message : Option String) : List (C × Option String) :=
  c.toList.map fun c => (c, message)

/-- The frame source takes requests, a host is there, and so much was told. -/
structure Attended (log : W → List (C × Option String)) (host : Nat)
    (told : List (C × Option String)) (s : Stage T C W) : Prop where
  source : s.source ≠ .stalled
  host : host < s.hosts.length
  told : log s.outside = told

namespace Attended

theorem of (hs : Attended log host told s) (hsource : s'.source ≠ .stalled)
    (hhosts : s'.hosts.length = s.hosts.length) (houtside : s'.outside = s.outside) :
    Attended log host told s' :=
  ⟨hsource, hhosts ▸ hs.host, houtside ▸ hs.told⟩

/-- Telling a callback that something is wrong, or that nothing is. -/
theorem tell (htakes : Takes react log) (c : Option C) (message : Option String)
    (hs : Attended log host told s) :
    ∃ s', Stage.tell react c (.error message) s = .ok () s' ∧
      Attended log host (told ++ heard c message) s' := by
  cases c with
  | none => exact ⟨s, rfl, hs.source, hs.host, hs.told.trans (List.append_nil _).symm⟩
  | some c =>
      refine ⟨_, ok_after (htakes.succeeds c message s hs.source), ?_⟩
      refine ⟨htakes.source c _ s hs.source, htakes.hosts c _ host s hs.host, ?_⟩
      refine (htakes.writes c message s).trans ?_
      rw [hs.told]
      rfl

theorem runScripts (htakes : Takes react log) (key : Nat) :
    Goes (Attended log host told) (runScripts react key) := by
  refine .runScripts (fun hook invocation s hs => ?_) key
  exact ⟨htakes.source hook _ s hs.source, htakes.hosts hook _ host s hs.host,
    (htakes.silent hook (.handler invocation) s nofun).trans hs.told⟩

theorem stop (group : String) :
    Goes (Attended log host told : Stage T C W → Prop) (stop group) :=
  .stop (fun _ hs => hs.source) (fun _ _ hsource hs => hs.of hsource rfl rfl)
    fun _ _ hs => hs.of hs.source rfl rfl

theorem modifyHost (n : Nat) (f : Host C → Host C) (hs : Attended log host told s) :
    Attended log host told (s.modifyHost n f) :=
  hs.of hs.source (List.length_modify ..) rfl

theorem unmount [DecidableEq C] (key : Nat) :
    Goes (Attended log host told : Stage T C W → Prop) (unmount key) := by
  have hoff : Goes (Attended log host told : Stage T C W → Prop)
      (updatePlayer key fun p => { p with mounted := false }) :=
    .change fun _ hs => hs.of hs.source rfl rfl
  refine .withPlayer fun p => ?_
  split
  · exact .pure ()
  · refine .bind (.change fun _ hs => hs.of hs.source rfl rfl) fun _ => .bind .get fun s => ?_
    dsimp only
    split
    · split
      · exact .bind (stop _) fun _ => hoff
      · exact hoff
    · exact hoff

theorem unmountHost [DecidableEq C] (n : Nat) :
    Goes (Attended log host told : Stage T C W → Prop) (unmountHost n) := by
  refine .bind .get fun s => ?_
  split
  · exact .pure ()
  · split
    · exact .pure ()
    · exact .bind (unmount _) fun _ => .change fun _ hs => hs.modifyHost n _

variable [TimeScalar T]

theorem start (group : String) :
    Goes (Attended log host told : Stage T C W → Prop) (start group) :=
  .start (fun _ hs => hs.source) (fun _ _ hsource hs => hs.of hsource rfl rfl)
    fun _ _ hs => hs.of hs.source rfl rfl

/-- A player that is not mounted is, and told that all is well. -/
theorem arrive (htakes : Takes react log) (key : Nat) (p : Player T C)
    (hs : Attended log host told s) :
    ∃ s', arrive react key p s = .ok () s' ∧
      Attended log host (told ++ heard p.options.onError none) s' := by
  have hs₁ : Attended log host told
      ((s.modifyPlayer key fun p => { p with mounted := true }).modifyTimeline p.group fun tl =>
        { tl with subscribers := tl.subscribers ++ [.player key] }) := hs.of hs.source rfl rfl
  obtain ⟨s₂, htell, hs₂⟩ := hs₁.tell htakes p.options.onError none
  obtain ⟨_, s₃, hscripts, hs₃⟩ := runScripts htakes key s₂ hs₂
  have hstart : Goes (Attended log host (told ++ heard p.options.onError none))
      (if p.options.autoPlay then Stage.start p.group else pure () : Action T C W Unit) := by
    split
    · exact start _
    · exact .pure ()
  obtain ⟨_, s₄, hstart, hs₄⟩ := hstart s₃ hs₃
  refine ⟨s₄, ?_, hs₄⟩
  exact (bind_ok htell _).trans ((bind_ok hscripts _).trans hstart)

end Attended

/-! ## Players that are shown -/

variable [TimeScalar T] {composition : Composition T} {text : String}

/-- A player was made for a composition. -/
def Made (key : Nat) (composition : Composition T) (s : Stage T C W) : Prop :=
  ∃ p, s.players[key]? = some p ∧ p.composition = composition

omit [TimeScalar T] in
theorem Made.modifyPlayer (hs : Made key composition s) {f : Player T C → Player T C}
    (hf : ∀ p, (f p).composition = p.composition) :
    Made key composition (s.modifyPlayer key f) := by
  obtain ⟨p, hp, rfl⟩ := hs
  refine ⟨f p, ?_, hf p⟩
  rw [players_modifyPlayer, hp]
  rfl

variable [DecidableEq C] {h : Host C} {fetched : Fetched}

/-- A host one load of which has fetched something and waits to go on. -/
def waiting (fetched : Fetched) : Host Unit where
  options := { onError := some () }
  loads := { states := [.done fetched], current := some 0 }

end Stage

end Cuesheet
