import Cuesheet.Manifest.Playback
import Cuesheet.Proofs.Data.Outcomes
import Cuesheet.Proofs.Number.Doubles

/-!
# Reading playback manifests

A manifest should be refused with a message or come to players and numbers that are as they should
be (`Valid`). A read can also end in a fault that refuses nothing (`Escapes`), in one of three
places: the section on the playback is no map, a number is an integer beyond doubles, or a path
variable has no text (`PathVars.Mistyped`). Each of them is followed from the function it is in to
the whole read, and together with NaN, which is not zero or below, they are all that can go wrong
(`settles_iff`).
-/

namespace Cuesheet

/-! ## Path variables -/

namespace PathVars

variable {paths : Datum} {ps rest : List Piece} {p : Piece}

/-- No name is unknown. -/
def Known (paths : Datum) (ps : List Piece) : Prop :=
  ∀ name, .var name ∈ ps → lookup paths name ≠ .unknown

/-- A variable stands for something other than a text, and no name is unknown before that shows:
at once if there is no map to take a value from, and at the end if the value is of the wrong
kind. -/
inductive Mistyped (paths : Datum) : List Piece → Prop
  | table {name : String} {rest : List Piece} (wrong : lookup paths name = .wrongTable) :
      Mistyped paths (.var name :: rest)
  | value {name : String} {rest : List Piece} (wrong : lookup paths name = .wrongValue)
      (known : Known paths rest) : Mistyped paths (.var name :: rest)
  | later {p : Piece} {rest : List Piece} (known : Known paths [p])
      (mistyped : Mistyped paths rest) : Mistyped paths (p :: rest)

theorem known_cons : Known paths (p :: rest) ↔ Known paths [p] ∧ Known paths rest := by
  simp only [Known, List.mem_cons, List.not_mem_nil, or_false]
  exact ⟨fun h => ⟨fun name hp => h name (.inl hp), fun name hrest => h name (.inr hrest)⟩,
    fun ⟨hp, hrest⟩ name hname => hname.elim (hp name) (hrest name)⟩

theorem known_char (paths : Datum) (c : Char) : Known paths [.char c] := fun name h => by
  cases List.mem_singleton.mp h

theorem known_var {name : String} : Known paths [.var name] ↔ lookup paths name ≠ .unknown := by
  simp [Known]

/-- What has a text or stands for itself makes no difference. -/
theorem mistyped_cons (hknown : Known paths [p])
    (hright : ∀ name, p = .var name → ∃ s, lookup paths name = .text s) :
    Mistyped paths (p :: rest) ↔ Mistyped paths rest := by
  refine ⟨fun h => ?_, .later hknown⟩
  cases h with
  | table wrong =>
      obtain ⟨s, hs⟩ := hright _ rfl
      rw [hs] at wrong
      cases wrong
  | value wrong _ =>
      obtain ⟨s, hs⟩ := hright _ rfl
      rw [hs] at wrong
      cases wrong
  | later _ mistyped => exact mistyped

theorem fill_badType_iff (bad : Bool) : fill paths bad ps = .error .badType ↔
    Mistyped paths ps ∨ bad = true ∧ Known paths ps := by
  induction ps generalizing bad with
  | nil =>
      have hknown : Known paths [] := nofun
      have hright : ¬ Mistyped paths [] := nofun
      cases bad <;> simp [fill, hknown, hright]
  | cons p rest ih =>
      rw [known_cons]
      cases p with
      | char c =>
          have hknown := known_char paths c
          rw [fill, map_error_iff, ih, mistyped_cons hknown nofun]
          simp only [hknown, true_and]
      | var name =>
          rw [known_var, fill]
          cases hname : lookup paths name with
          | text s =>
              have hknown : Known paths [.var name] := known_var.mpr (by rw [hname]; nofun)
              have hright : ∀ other, Piece.var name = .var other →
                  ∃ s, lookup paths other = .text s := fun other heq => by
                cases heq
                exact ⟨s, hname⟩
              dsimp only
              rw [map_error_iff, ih, mistyped_cons hknown hright]
              simp
          | unknown =>
              have hright : ¬ Mistyped paths (.var name :: rest) := fun h => by
                cases h with
                | table wrong => rw [hname] at wrong; cases wrong
                | value wrong _ => rw [hname] at wrong; cases wrong
                | later known _ => exact known_var.mp known hname
              simp [hright]
          | wrongTable => simp [Mistyped.table hname]
          | wrongValue =>
              dsimp only
              rw [ih]
              constructor
              · rintro (h | ⟨-, h⟩)
                · exact .inl (.later (known_var.mpr (by rw [hname]; nofun)) h)
                · exact .inl (.value hname h)
              · rintro (h | ⟨-, -, h⟩)
                · cases h with
                  | table wrong => rw [hname] at wrong; cases wrong
                  | value _ known => exact .inr ⟨rfl, known⟩
                  | later _ mistyped => exact .inl mistyped
                · exact .inr ⟨rfl, h⟩

theorem resolve_badType_iff (path : String) :
    resolve paths path = .error .badType ↔ Mistyped paths (pieces path.toList) := by
  rw [resolve, map_error_iff, fill_badType_iff]
  simp

end PathVars

/-! ## Faults that refuse nothing -/

/-- A fault says what is wrong with a manifest. The others show where something was done with its
data that they do not allow. -/
def PlaybackFault.isRefusal : PlaybackFault → Bool
  | .sectionNotAMap | .path .badType => false
  | .arith fault =>
    match fault with
    | .nanToInteger | .tooManyDigits _ => true
    | .integerTooLarge | .infinityToInteger | .zeroDivision => false
  | _ => true

namespace PlaybackManifest

variable {α β : Type} {directory : Path} {paths value d : Datum} {fields settings : Fields}
  {entries : List Datum} {index : Nat} {label : String}

/-- A read ends in a fault that refuses nothing. -/
def Escapes (read : Except PlaybackFault α) : Prop :=
  ∃ fault, read = .error fault ∧ fault.isRefusal = false

theorem not_escapes_ok (a : α) : ¬ Escapes (.ok a) := nofun

theorem escapes_error_iff {fault : PlaybackFault} :
    Escapes (.error fault : Except PlaybackFault α) ↔ fault.isRefusal = false :=
  ⟨fun ⟨_, h, hfault⟩ => by cases h; exact hfault, fun h => ⟨fault, rfl, h⟩⟩

theorem escapes_bind {read : Except PlaybackFault α} {next : α → Except PlaybackFault β} :
    Escapes (read >>= next) ↔ Escapes read ∨ ∃ a, read = .ok a ∧ Escapes (next a) := by
  cases read with
  | error fault =>
      show Escapes (.error fault) ↔ _
      rw [escapes_error_iff, escapes_error_iff]
      exact (or_iff_left nofun).symm
  | ok a =>
      show Escapes (next a) ↔ _
      rw [or_iff_right (not_escapes_ok a)]
      exact ⟨fun h => ⟨a, rfl, h⟩, fun ⟨_, heq, h⟩ => by cases heq; exact h⟩

theorem not_escapes_bind {read : Except PlaybackFault α} {next : α → Except PlaybackFault β}
    (hread : ¬ Escapes read) (hnext : ∀ a, ¬ Escapes (next a)) : ¬ Escapes (read >>= next) := by
  rw [escapes_bind]
  rintro (h | ⟨a, -, h⟩)
  · exact hread h
  · exact hnext a h

/-- An integer beyond doubles. -/
def TooLarge (value : Datum) : Prop :=
  ∃ n : Int, value = .number (.int n) ∧ Number.integerLimit ≤ n.natAbs

theorem toFloat_escapes_iff (label : String) (value : Datum) :
    Escapes (toFloat label value) ↔ TooLarge value := by
  have hlarge : ∀ n : Number, TooLarge (.number n) ↔ ∃ fault, n.toFloat? = .error fault := fun n => by
    rw [Number.toFloat?_error_iff]
    exact exists_congr fun k => and_congr_left fun _ => Datum.number.injEq n (.int k) ▸ Iff.rfl
  unfold toFloat
  split
  · rename_i n
    rw [hlarge]
    cases hn : n.toFloat? with
    | ok x => exact iff_of_false nofun nofun
    | error fault =>
        have hfault : fault = .integerTooLarge := by
          unfold Number.toFloat? at hn
          split at hn
          · cases hn
          · split at hn <;> cases hn
            rfl
        rw [hfault]
        exact iff_of_true (escapes_error_iff.mpr rfl) ⟨_, rfl⟩
  · exact iff_of_false nofun nofun
  · split
    · exact iff_of_false nofun nofun
    · exact iff_of_false (by rw [escapes_error_iff]; nofun) nofun
  · rename_i hnumber _ _
    refine iff_of_false (by rw [escapes_error_iff]; nofun) ?_
    rintro ⟨n, rfl, -⟩
    exact hnumber _ rfl

theorem positive_escapes_iff : Escapes (positive label value) ↔ TooLarge value := by
  rw [← toFloat_escapes_iff label, positive]
  cases toFloat label value with
  | error fault => exact escapes_error_iff.trans escapes_error_iff.symm
  | ok x =>
      refine iff_of_false ?_ (not_escapes_ok x)
      dsimp only
      split
      · rw [escapes_error_iff]
        nofun
      · exact not_escapes_ok x

theorem of_positive {x : Float} (h : positive label value = .ok x) :
    toFloat label value = .ok x ∧ ¬ x ≤ 0 := by
  unfold positive at h
  split at h
  · cases h
  · rename_i hx
    split at h <;> cases h
    rename_i hpos
    exact ⟨hx, hpos⟩

/-- NaN, or a text that spells it. -/
inductive NotANumber : Datum → Prop
  | real {x : Float} (nan : x.isNaN = true) : NotANumber (.number (.real x))
  | text {s : String} (nan : RealLiteral.ofText? s = some .nan) : NotANumber (.text s)

/-- Of the texts of numbers only that of NaN is not read as a number. -/
theorem isNaN_toFloat_iff (literal : RealLiteral) :
    literal.toFloat.isNaN = true ↔ literal = .nan := by
  cases literal with
  | nan => exact iff_of_true (by decide +kernel) rfl
  | infinite negative => exact iff_of_false (by cases negative <;> decide +kernel) nofun
  | finite negative mantissa exponent =>
      refine iff_of_false ?_ nofun
      rw [RealLiteral.toFloat, Number.isNaN_ofDecimal]
      exact Bool.false_ne_true

theorem isNaN_iff_of_positive {x : Float} (h : positive label value = .ok x) :
    x.isNaN = true ↔ NotANumber value := by
  replace h := (of_positive h).1
  unfold toFloat at h
  split at h
  · rename_i n
    split at h <;> cases h
    rename_i hn
    cases n with
    | real x =>
        cases hn
        exact ⟨.real, fun h => by cases h; assumption⟩
    | int k =>
        refine iff_of_false ?_ fun h => by cases h
        rw [Number.toFloat?] at hn
        split at hn <;> cases hn
        rw [Number.floatOfInt, Number.isNaN_nearest]
        exact Bool.false_ne_true
  · rename_i b
    cases h
    exact iff_of_false (by cases b <;> decide +kernel) fun h => by cases h
  · split at h <;> cases h
    rename_i literal hliteral
    rw [isNaN_toFloat_iff]
    exact ⟨fun heq => .text (hliteral.trans (congrArg some heq)), fun h => by
      cases h with
      | text nan => exact Option.some.inj (hliteral.symm.trans nan)⟩
  · cases h

/-! ## Players -/

/-- A source is what a value says once its variables are replaced, if that is a URL or begins at the
root, and else that seen from the directory of the manifest. -/
def SourceOf (directory : Path) (paths value : Datum) (source : String) : Prop :=
  ∃ s, PathVars.resolve paths value.asText = .ok s ∧
    if Source.isUrl s = true ∨ (Path.ofString s).isAbsolute = true then source = s
    else source = (directory.join (.ofString s)).text

/-- A player is what the fields of its entry say, and as it is by default where they say nothing. -/
structure PlayerOf (directory : Path) (paths : Datum) (fields : Fields) (p : PlayerEntry) :
    Prop where
  source : ∃ value, fields.value? "source" = some value ∧ SourceOf directory paths value p.source
  syncGroup : p.syncGroup = none ∧ (fields.value? "sync_group").getD .null = .null ∨
    ∃ value, fields.value? "sync_group" = some value ∧ value ≠ .null ∧
      p.syncGroup = some value.asText
  clockMode : (fields.value? "clock_mode").getD (.text "live") = .text p.clockMode.text
  loop : (fields.value? "loop").getD (.bool false) = .bool p.loop
  autoPlay : (fields.value? "auto_play").getD (.bool true) = .bool p.autoPlay

theorem source_escapes_iff : Escapes (source directory paths value) ↔
    PathVars.Mistyped paths (PathVars.pieces value.asText.toList) := by
  rw [← PathVars.resolve_badType_iff, source]
  cases PathVars.resolve paths value.asText with
  | ok s =>
      refine iff_of_false ?_ nofun
      dsimp only
      split <;> exact not_escapes_ok _
  | error fault =>
      dsimp only
      rw [escapes_error_iff]
      cases fault with
      | unknown name => exact iff_of_false nofun nofun
      | badType => exact iff_of_true rfl rfl

theorem source_of {s : String} (h : source directory paths value = .ok s) :
    SourceOf directory paths value s := by
  unfold source at h
  split at h
  · cases h
  · rename_i resolved hresolved
    refine ⟨resolved, hresolved, ?_⟩
    simp only [Bool.or_eq_true] at h
    split at h <;> cases h
    · rw [if_pos ‹_›]
    · rw [if_neg ‹_›]

theorem not_escapes_clockMode : ¬ Escapes (clockMode index fields) := by
  unfold clockMode
  dsimp only
  repeat' split
  all_goals first | exact not_escapes_ok _ | (rw [escapes_error_iff]; nofun)

theorem clockMode_of {mode : ClockMode} (h : clockMode index fields = .ok mode) :
    (fields.value? "clock_mode").getD (.text "live") = .text mode.text := by
  unfold clockMode at h
  dsimp only at h
  split at h
  · rename_i s hs
    refine hs.trans (congrArg Datum.text ?_)
    split at h <;> cases h
    rename_i hmode
    unfold ClockMode.ofString? at hmode
    split at hmode
    · rename_i hlive
      cases hmode
      exact eq_of_beq hlive
    · split at hmode <;> cases hmode
      rename_i hbounded
      exact eq_of_beq hbounded
  · cases h

theorem not_escapes_bool {name : String} {default : Bool} :
    ¬ Escapes (bool fields name default label) := by
  unfold bool
  split
  · exact not_escapes_ok _
  · exact not_escapes_ok _
  · rw [escapes_error_iff]
    nofun

theorem bool_of {name : String} {default b : Bool} (h : bool fields name default label = .ok b) :
    (fields.value? name).getD (.bool default) = .bool b := by
  unfold bool at h
  split at h
  · rename_i hnone
    cases h
    rw [hnone]
    rfl
  · rename_i hsome
    cases h
    rw [hsome]
    rfl
  · cases h

theorem syncGroup_of (fields : Fields) :
    syncGroup fields = none ∧ (fields.value? "sync_group").getD .null = .null ∨
      ∃ value, fields.value? "sync_group" = some value ∧ value ≠ .null ∧
        syncGroup fields = some value.asText := by
  unfold syncGroup
  cases fields.value? "sync_group" with
  | none => exact .inl ⟨rfl, rfl⟩
  | some value =>
      cases value with
      | null => exact .inl ⟨rfl, rfl⟩
      | _ => exact .inr ⟨_, rfl, nofun, rfl⟩

theorem player_escapes_iff : Escapes (player directory paths index fields) ↔
    ∃ value, fields.value? "source" = some value ∧
      PathVars.Mistyped paths (PathVars.pieces value.asText.toList) := by
  unfold player
  cases fields.value? "source" with
  | none => exact iff_of_false (escapes_error_iff.not.mpr nofun) nofun
  | some value =>
      have hrest : ∀ source, ¬ Escapes (do
          let clockMode ← clockMode index fields
          let loop ← bool fields "loop" false (PlaybackFault.player index ++ ": loop")
          let autoPlay ← bool fields "auto_play" true (PlaybackFault.player index ++ ": auto_play")
          return ({ source, syncGroup := syncGroup fields, clockMode, loop, autoPlay } :
            PlayerEntry)) := fun source =>
        not_escapes_bind not_escapes_clockMode fun _ =>
          not_escapes_bind not_escapes_bool fun _ =>
            not_escapes_bind not_escapes_bool fun _ => not_escapes_ok _
      refine escapes_bind.trans ?_
      rw [or_iff_left fun ⟨source, _, h⟩ => hrest source h, source_escapes_iff]
      exact ⟨fun h => ⟨value, rfl, h⟩, fun ⟨_, heq, h⟩ => by cases heq; exact h⟩

theorem player_of {p : PlayerEntry} (h : player directory paths index fields = .ok p) :
    PlayerOf directory paths fields p := by
  unfold player at h
  cases hvalue : fields.value? "source" with
  | none => rw [hvalue] at h; cases h
  | some value =>
      rw [hvalue] at h
      obtain ⟨source, hsource, h⟩ := ok_of_bind h
      obtain ⟨clockMode, hclockMode, h⟩ := ok_of_bind h
      obtain ⟨loop, hloop, h⟩ := ok_of_bind h
      obtain ⟨autoPlay, hautoPlay, h⟩ := ok_of_bind h
      cases h
      exact {
        source := ⟨value, hvalue, source_of hsource⟩
        syncGroup := syncGroup_of fields
        clockMode := clockMode_of hclockMode
        loop := bool_of hloop
        autoPlay := bool_of hautoPlay }

/-! ## Entries -/

theorem playersOf_map (directory : Path) (paths : Datum) (index : Nat) (fields : Fields)
    (rest : List Datum) : playersOf directory paths index (.map fields :: rest) =
      player directory paths index fields >>= fun p =>
        playersOf directory paths (index + 1) rest >>= fun ps => .ok (p :: ps) := by
  rw [playersOf]
  cases player directory paths index fields with
  | error fault => rfl
  | ok p => cases playersOf directory paths (index + 1) rest <;> rfl

theorem playersOf_of_ne (h : ∀ fields, d ≠ .map fields) (rest : List Datum) :
    playersOf directory paths index (d :: rest) = .error (.entryNotAMap index d) := by
  cases d with
  | map fields => exact absurd rfl (h fields)
  | _ => rfl

/-- The source of an entry has a path variable without a text, and the entries in front are read. -/
inductive Untold (directory : Path) (paths : Datum) : Nat → List Datum → Prop
  | here {index : Nat} {fields : Fields} {rest : List Datum} {value : Datum}
      (source : fields.value? "source" = some value)
      (mistyped : PathVars.Mistyped paths (PathVars.pieces value.asText.toList)) :
      Untold directory paths index (.map fields :: rest)
  | later {index : Nat} {fields : Fields} {rest : List Datum} {p : PlayerEntry}
      (read : player directory paths index fields = .ok p)
      (untold : Untold directory paths (index + 1) rest) :
      Untold directory paths index (.map fields :: rest)

theorem playersOf_escapes_iff :
    Escapes (playersOf directory paths index entries) ↔ Untold directory paths index entries := by
  induction entries generalizing index with
  | nil => exact iff_of_false (not_escapes_ok []) fun h => by cases h
  | cons d rest ih =>
      by_cases hmap : ∃ fields, d = .map fields
      · obtain ⟨fields, rfl⟩ := hmap
        rw [playersOf_map, escapes_bind, player_escapes_iff]
        constructor
        · rintro (⟨value, hvalue, h⟩ | ⟨p, hp, h⟩)
          · exact .here hvalue h
          · have hrest := (escapes_bind.mp h).resolve_right fun ⟨ps, _, h⟩ => not_escapes_ok _ h
            exact .later hp (ih.mp hrest)
        · intro h
          cases h with
          | here source mistyped => exact .inl ⟨_, source, mistyped⟩
          | later read untold =>
              exact .inr ⟨_, read, escapes_bind.mpr (.inl (ih.mpr untold))⟩
      · rw [playersOf_of_ne (not_exists.mp hmap)]
        refine iff_of_false (escapes_error_iff.not.mpr nofun) fun h => ?_
        cases h <;> exact hmap ⟨_, rfl⟩

/-- Every player is that of the entry in its place. -/
theorem playersOf_of {ps : List PlayerEntry}
    (h : playersOf directory paths index entries = .ok ps) :
    List.Forall₂ (fun entry p => ∃ fields, entry = .map fields ∧ PlayerOf directory paths fields p)
      entries ps := by
  induction entries generalizing index ps with
  | nil =>
      cases h
      exact .nil
  | cons d rest ih =>
      by_cases hmap : ∃ fields, d = .map fields
      · obtain ⟨fields, rfl⟩ := hmap
        rw [playersOf_map] at h
        obtain ⟨p, hp, h⟩ := ok_of_bind h
        obtain ⟨others, hothers, h⟩ := ok_of_bind h
        cases h
        exact .cons ⟨fields, rfl, player_of hp⟩ (ih hothers)
      · rw [playersOf_of_ne (not_exists.mp hmap)] at h
        cases h

/-! ## Manifests -/

/-- What a manifest says about a setting, and what counts if it says nothing. -/
def setting (settings : Fields) (name : String) (default : Number) : Datum :=
  (Entries.value? settings name).getD (.number default)

/-- A manifest is a map with a section on the playback and with players. -/
structure Laid (d : Datum) (fields settings : Fields) (entries : List Datum) : Prop where
  map : d = .map fields
  players : Entries.value? fields "players" = some (.list entries)
  nonempty : entries ≠ []
  settings : part fields "playback" = .map settings

def refreshHzOf (settings : Fields) : Except PlaybackFault Float :=
  positive "playback.refresh_hz" (setting settings "refresh_hz" defaultRefreshHz)

def secondsOf (settings : Fields) : Except PlaybackFault Float :=
  positive "playback.seconds" (setting settings "seconds" defaultSeconds)

theorem Laid.ofDatum_eq (h : Laid d fields settings entries) : ofDatum directory d = do
    let refreshHz ← refreshHzOf settings
    let seconds ← secondsOf settings
    let players ← playersOf directory (part fields "paths") 0 entries
    return { refreshHz, seconds, players } := by
  obtain ⟨rfl, hplayers, hne, hsettings⟩ := h
  obtain ⟨first, rest, rfl⟩ := List.exists_cons_of_ne_nil hne
  rw [ofDatum, hplayers]
  dsimp only
  rw [hsettings]
  rfl

/-- A manifest with players whose section on the playback is no map. -/
structure Unsectioned (d : Datum) (fields : Fields) (entries : List Datum) : Prop where
  map : d = .map fields
  players : Entries.value? fields "players" = some (.list entries)
  nonempty : entries ≠ []
  noMap : ∀ settings, part fields "playback" ≠ .map settings

theorem Unsectioned.ofDatum_eq (h : Unsectioned d fields entries) :
    ofDatum directory d = .error .sectionNotAMap := by
  obtain ⟨rfl, hplayers, hne, hnoMap⟩ := h
  obtain ⟨first, rest, rfl⟩ := List.exists_cons_of_ne_nil hne
  rw [ofDatum, hplayers]
  dsimp only
  cases hpart : part fields "playback" with
  | map settings => exact absurd hpart (hnoMap settings)
  | _ => rfl

/-- Anything else is refused. -/
theorem laid_or_unsectioned (directory : Path) (d : Datum) :
    (∃ fields settings entries, Laid d fields settings entries) ∨
      (∃ fields entries, Unsectioned d fields entries) ∨
        ∃ fault, ofDatum directory d = .error fault ∧ fault.isRefusal = true := by
  cases d with
  | map fields =>
      cases hplayers : Entries.value? fields "players" with
      | none =>
          refine .inr (.inr ⟨.noPlayers, ?_, rfl⟩)
          rw [ofDatum, hplayers]
          rfl
      | some value =>
          by_cases hlist : ∃ first rest, value = .list (first :: rest)
          · obtain ⟨first, rest, rfl⟩ := hlist
            by_cases hsection : ∃ settings, part fields "playback" = .map settings
            · obtain ⟨settings, hsettings⟩ := hsection
              exact .inl ⟨fields, settings, _, rfl, hplayers, List.cons_ne_nil _ _, hsettings⟩
            · exact .inr (.inl ⟨fields, _, rfl, hplayers, List.cons_ne_nil _ _,
                not_exists.mp hsection⟩)
          · refine .inr (.inr ⟨.playersEmpty, ?_, rfl⟩)
            rw [ofDatum, hplayers]
            split
            · rename_i heq
              cases heq
            · rename_i first rest heq
              cases heq
              exact absurd ⟨first, rest, rfl⟩ hlist
            · rfl
  | _ => exact .inr (.inr ⟨.notAMap, rfl, rfl⟩)

end PlaybackManifest

/-- A playback manifest is as it should be: its numbers are above zero, and it has players, each of
them that of an entry. -/
structure PlaybackManifest.Valid (directory : Path) (d : Datum) (m : PlaybackManifest) :
    Prop where
  refreshHz : 0 < m.refreshHz
  seconds : 0 < m.seconds
  nonempty : m.players ≠ []
  players : ∃ fields entries, d = .map fields ∧
    Entries.value? fields "players" = some (.list entries) ∧
      List.Forall₂ (fun entry p => ∃ entryFields, entry = .map entryFields ∧
        PlayerOf directory (part fields "paths") entryFields p) entries m.players

namespace PlaybackManifest

variable {directory : Path} {d : Datum} {fields settings : Fields} {entries : List Datum}
  {m : PlaybackManifest}

/-- A read refuses its data, or it comes to a manifest that is as it should be. -/
def Settles (directory : Path) (d : Datum) : Prop :=
  (∃ fault, ofDatum directory d = .error fault ∧ fault.isRefusal = true) ∨
    ∃ m, ofDatum directory d = .ok m ∧ m.Valid directory d

theorem Settles.not_escapes (h : Settles directory d) : ¬ Escapes (ofDatum directory d) := by
  rintro ⟨fault, hfault, hescapes⟩
  rcases h with ⟨_, hread, hrefusal⟩ | ⟨_, hread, -⟩
  · cases hread.symm.trans hfault
    rw [hescapes] at hrefusal
    cases hrefusal
  · cases hread.symm.trans hfault

/-- The places where something is done with the data that they do not allow, in the order in which
a read comes to them. -/
inductive Breaks (directory : Path) (d : Datum) : Prop
  | playback {fields : Fields} {entries : List Datum} (unsectioned : Unsectioned d fields entries)
  | refreshHz {fields settings : Fields} {entries : List Datum}
      (laid : Laid d fields settings entries)
      (tooLarge : TooLarge (setting settings "refresh_hz" defaultRefreshHz))
  | seconds {fields settings : Fields} {entries : List Datum} {refreshHz : Float}
      (laid : Laid d fields settings entries) (rate : refreshHzOf settings = .ok refreshHz)
      (tooLarge : TooLarge (setting settings "seconds" defaultSeconds))
  | source {fields settings : Fields} {entries : List Datum} {refreshHz seconds : Float}
      (laid : Laid d fields settings entries) (rate : refreshHzOf settings = .ok refreshHz)
      (duration : secondsOf settings = .ok seconds)
      (untold : Untold directory (part fields "paths") 0 entries)

/-- A manifest that is read has NaN for a number. -/
structure Unmeasured (directory : Path) (d : Datum) : Prop where
  read : ∃ m, ofDatum directory d = .ok m
  nan : ∃ fields settings entries, Laid d fields settings entries ∧
    (NotANumber (setting settings "refresh_hz" defaultRefreshHz) ∨
      NotANumber (setting settings "seconds" defaultSeconds))

namespace Laid

theorem escapes_iff (h : Laid d fields settings entries) : Escapes (ofDatum directory d) ↔
    TooLarge (setting settings "refresh_hz" defaultRefreshHz) ∨
      ∃ refreshHz, refreshHzOf settings = .ok refreshHz ∧
        (TooLarge (setting settings "seconds" defaultSeconds) ∨
          ∃ seconds, secondsOf settings = .ok seconds ∧
            Untold directory (part fields "paths") 0 entries) := by
  rw [h.ofDatum_eq, escapes_bind, refreshHzOf, positive_escapes_iff]
  refine or_congr_right (exists_congr fun refreshHz => and_congr_right fun _ => ?_)
  rw [escapes_bind, secondsOf, positive_escapes_iff]
  refine or_congr_right (exists_congr fun seconds => and_congr_right fun _ => ?_)
  rw [escapes_bind, playersOf_escapes_iff]
  exact or_iff_left nofun

theorem parts (h : Laid d fields settings entries) (hread : ofDatum directory d = .ok m) :
    refreshHzOf settings = .ok m.refreshHz ∧ secondsOf settings = .ok m.seconds ∧
      playersOf directory (part fields "paths") 0 entries = .ok m.players := by
  rw [h.ofDatum_eq] at hread
  obtain ⟨refreshHz, hrate, hread⟩ := ok_of_bind hread
  obtain ⟨seconds, hduration, hread⟩ := ok_of_bind hread
  obtain ⟨players, hplayers, hread⟩ := ok_of_bind hread
  cases hread
  exact ⟨hrate, hduration, hplayers⟩

/-- A manifest that is read is as it should be unless one of its numbers is NaN. -/
theorem valid_iff (h : Laid d fields settings entries) (hread : ofDatum directory d = .ok m) :
    m.Valid directory d ↔ ¬ (NotANumber (setting settings "refresh_hz" defaultRefreshHz) ∨
      NotANumber (setting settings "seconds" defaultSeconds)) := by
  obtain ⟨hrate, hduration, hplayers⟩ := h.parts hread
  rw [← isNaN_iff_of_positive hrate, ← isNaN_iff_of_positive hduration, not_or,
    Bool.not_eq_true, Bool.not_eq_true]
  constructor
  · intro hvalid
    exact ⟨(Number.pos_iff.mp hvalid.refreshHz).2, (Number.pos_iff.mp hvalid.seconds).2⟩
  · rintro ⟨hrateNaN, hdurationNaN⟩
    have hentries := playersOf_of hplayers
    refine ⟨Number.pos_iff.mpr ⟨(of_positive hrate).2, hrateNaN⟩,
      Number.pos_iff.mpr ⟨(of_positive hduration).2, hdurationNaN⟩, fun hnil => ?_,
      fields, entries, h.map, h.players, hentries⟩
    rw [hnil] at hentries
    cases hentries
    exact h.nonempty rfl

end Laid

theorem escapes_iff (directory : Path) (d : Datum) :
    Escapes (ofDatum directory d) ↔ Breaks directory d := by
  constructor
  · intro hescapes
    rcases laid_or_unsectioned directory d with
      ⟨fields, settings, entries, hlaid⟩ | ⟨fields, entries, hunsectioned⟩ | ⟨fault, hread, hfault⟩
    · rcases hlaid.escapes_iff.mp hescapes with
        hlarge | ⟨refreshHz, hrate, hlarge | ⟨seconds, hduration, huntold⟩⟩
      · exact .refreshHz hlaid hlarge
      · exact .seconds hlaid hrate hlarge
      · exact .source hlaid hrate hduration huntold
    · exact .playback hunsectioned
    · rw [hread, escapes_error_iff, hfault] at hescapes
      cases hescapes
  · intro hbreaks
    cases hbreaks with
    | playback unsectioned =>
        rw [unsectioned.ofDatum_eq]
        exact escapes_error_iff.mpr rfl
    | refreshHz laid tooLarge => exact laid.escapes_iff.mpr (.inl tooLarge)
    | seconds laid rate tooLarge => exact laid.escapes_iff.mpr (.inr ⟨_, rate, .inl tooLarge⟩)
    | source laid rate duration untold =>
        exact laid.escapes_iff.mpr (.inr ⟨_, rate, .inr ⟨_, duration, untold⟩⟩)

/-- What is read is laid out as a manifest is. -/
theorem exists_laid (h : ofDatum directory d = .ok m) :
    ∃ fields settings entries, Laid d fields settings entries := by
  rcases laid_or_unsectioned directory d with hlaid | ⟨_, _, hunsectioned⟩ | ⟨_, hread, _⟩
  · exact hlaid
  · rw [hunsectioned.ofDatum_eq] at h
    cases h
  · rw [hread] at h
    cases h

/-- A read refuses its data or comes to a manifest that is as it should be, exactly if it comes to
no place where it breaks, and to no NaN. -/
theorem settles_iff (directory : Path) (d : Datum) :
    Settles directory d ↔ ¬ Breaks directory d ∧ ¬ Unmeasured directory d := by
  rw [← escapes_iff, Settles]
  cases hread : ofDatum directory d with
  | error fault =>
      have hmeasured : ¬ Unmeasured directory d := fun h => by
        obtain ⟨m, hm⟩ := h.read
        cases hread.symm.trans hm
      rw [escapes_error_iff, Bool.not_eq_false, and_iff_left hmeasured]
      constructor
      · rintro (⟨_, heq, hfault⟩ | ⟨_, heq, -⟩) <;> cases heq
        exact hfault
      · exact fun hfault => .inl ⟨fault, rfl, hfault⟩
  | ok m =>
      obtain ⟨fields, settings, entries, hlaid⟩ := exists_laid hread
      have hvalid : m.Valid directory d ↔ ¬ Unmeasured directory d := by
        rw [hlaid.valid_iff hread]
        refine not_congr ⟨fun h => ⟨⟨m, hread⟩, fields, settings, entries, hlaid, h⟩, ?_⟩
        rintro ⟨-, fields', settings', entries', hlaid', h⟩
        cases hlaid.map.symm.trans hlaid'.map
        cases hlaid.settings.symm.trans hlaid'.settings
        exact h
      rw [and_iff_right (not_escapes_ok m), ← hvalid]
      constructor
      · rintro (⟨_, heq, -⟩ | ⟨_, heq, h⟩) <;> cases heq
        exact h
      · exact fun h => .inr ⟨m, rfl, h⟩

/-- A manifest with a single player. -/
def solo (playback : Datum) : Datum :=
  .map [("players", .list [.map [("source", .text "/a.vml")]]), ("playback", playback)]

theorem laid_solo {settings : Fields} (h : settings ≠ []) :
    Laid (solo (.map settings)) [("players", .list [.map [("source", .text "/a.vml")]]),
      ("playback", .map settings)] settings [.map [("source", .text "/a.vml")]] := by
  obtain ⟨first, rest, rfl⟩ := List.exists_cons_of_ne_nil h
  exact ⟨rfl, rfl, List.cons_ne_nil _ _, rfl⟩

/-- A number of frames that is too large or NaN, and frames that are listed. -/
theorem solo_unsettled :
    ¬ Settles (.ofString ".") (solo (.map [("refresh_hz", .number (.int (10 ^ 309)))])) ∧
      ¬ Settles (.ofString ".") (solo (.map [("refresh_hz", .text "nan")])) ∧
        ¬ Settles (.ofString ".") (solo (.list [.number (.int 60)])) := by
  refine ⟨fun hsettles => ?_, fun hsettles => ?_, fun hsettles => ?_⟩
  · refine hsettles.not_escapes ((laid_solo (List.cons_ne_nil _ _)).escapes_iff.mpr (.inl ?_))
    have hlimit : Number.integerLimit ≤ (10 ^ 309 : Int).natAbs := by decide +kernel
    exact ⟨10 ^ 309, rfl, hlimit⟩
  · have hnan : ((ofDatum (.ofString ".") (solo (.map [("refresh_hz", .text "nan")]))).toOption.any
        fun m => m.refreshHz.isNaN) = true := by
      decide +kernel
    obtain ⟨m, hread, hnan⟩ := exists_ok_of_any hnan
    rcases hsettles with ⟨_, hfault, -⟩ | ⟨_, hm, hvalid⟩
    · cases hfault.symm.trans hread
    · cases hm.symm.trans hread
      rw [(Number.pos_iff.mp hvalid.refreshHz).2] at hnan
      cases hnan
  · refine hsettles.not_escapes (escapes_error_iff.mpr ?_ : Escapes (.error .sectionNotAMap))
    rfl

end PlaybackManifest

end Cuesheet
