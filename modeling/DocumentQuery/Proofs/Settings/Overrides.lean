import DocumentQuery.CommandLine.Run
import DocumentQuery.Proofs.Number.Digits
import DocumentQuery.Proofs.Outcome

/-!
# Settings under an environment

Every setting has one variable. A variable that holds a text decides its setting, and the
others stay what the file, or for want of a file the default, says. A text is a setting as
it stands; only the indentation is a number, and a text that spells none is refused.

The settings of logging are handed on in the variables that they come from. Loading without
a file therefore finds them again, whatever file they came from. A file can give a setting
that no variable can hold, though: where one of logging has a NUL character, the program
ends before the command begins.

Main definitions:

* `SpellsIndent` — the texts that are an indentation.
* `LogSettings.NulFree` — what variables can hold.
* `Settings.Given` — what holds before the environment is looked at.
* `Settings.Follows` — which setting follows which variable.

Main results:

* `indentSizeOf?_eq_some_iff` — the indentation that a text spells.
* `GeneratorOptions.override_eq_error_iff` — the only variable that is ever refused.
* `Settings.exportLogging_succeeds_iff`, `Settings.exportLogging_eq_error` — which settings
  can be handed on.
* `LogSettings.override_handedOn` — the environment that logging is handed.
* `Settings.load_overrides` — all settings.
* `Invocation.run_breaksOff_iff` — runs that end without a result.
-/

namespace DocumentQuery

open Environment

/-- Decimal digits, at least one of them, behind a plus sign or not. Zeros may lead, and the
number is below 2^64. -/
def SpellsIndent (value : String) (n : Nat) : Prop :=
  ∃ digits : List Char, (value.toList = digits ∨ value.toList = '+' :: digits) ∧
    digits ≠ [] ∧ (∀ c ∈ digits, c.isDigit = true) ∧ Digits.value digits = n ∧ n < twoTo 64

theorem indentSizeOf?_eq_some_iff {value : String} {n : Nat} :
    indentSizeOf? value = some n ↔ SpellsIndent value n := by
  unfold indentSizeOf?
  constructor
  · intro h
    split at h
    · rename_i digits hSign
      exact ⟨digits, .inr hSign, Digits.word?_eq_some_iff.mp h⟩
    · exact ⟨_, .inl rfl, Digits.word?_eq_some_iff.mp h⟩
  · rintro ⟨digits, hBare | hSigned, hSpelled⟩
    · split
      · -- a plus sign is no digit
        rename_i digits' hSign
        have hPlus := hSpelled.2.1 '+' (by rw [← hBare, hSign]; exact List.mem_cons_self)
        cases hPlus
      · rw [hBare]
        exact Digits.word?_eq_some_iff.mpr hSpelled
    · rw [hSigned]
      exact Digits.word?_eq_some_iff.mpr hSpelled

theorem indentSizeOf?_eq_none_iff {value : String} :
    indentSizeOf? value = none ↔ ¬ ∃ n, SpellsIndent value n := by
  rw [Option.eq_none_iff_forall_ne_some, not_exists]
  exact forall_congr' fun n => not_congr indentSizeOf?_eq_some_iff

/-! ## Variables -/

namespace Environment

variable (env : Environment) (name : String)

@[simp] theorem text?_assign_self (value : String) :
    (env.assign name (.unicode value)).text? name = some value := by
  unfold text? assign
  rw [if_pos rfl]
  rfl

theorem text?_assign_of_ne (value : SystemText) {other : String} (h : other ≠ name) :
    (env.assign name value).text? other = env.text? other := by
  unfold text? assign
  rw [if_neg h]

variable {env name}

theorem set_eq_ok {value : String} {env' : Environment} :
    env.set name value = .ok env' ↔
      Settable name value ∧ env.assign name (.unicode value) = env' := by
  unfold set
  split
  · rename_i hSettable
    rw [Except.ok.injEq]
    exact ⟨fun h => ⟨hSettable, h⟩, fun h => h.2⟩
  · rename_i hNot
    exact ⟨nofun, fun h => absurd h.1 hNot⟩

/-- Where the name is allowed, only NUL keeps the variable from being set. -/
theorem nul_mem_of_not_settable {value : String} (hName : NameAllowed name)
    (h : ¬ Settable name value) : nul ∈ value.toList := by
  by_contra hFree
  exact h ⟨hName, hFree⟩

theorem set_eq_error {value : String} {u : Unsettable} :
    env.set name value = .error u ↔ ¬ Settable name value ∧ u = ⟨name, value⟩ := by
  unfold set
  split
  · rename_i hSettable
    exact ⟨nofun, fun h => absurd hSettable h.1⟩
  · rename_i hNot
    rw [Except.error.injEq]
    exact ⟨fun h => ⟨hNot, h.symm⟩, fun h => h.2.symm⟩

end Environment

/-! ## The indentation -/

namespace GeneratorOptions

variable {o : GeneratorOptions} {env : Environment}

theorem override_of_unset (h : env.text? indentSizeName = none) : o.override env = .ok o := by
  unfold override
  rw [h]

theorem override_of_spells {value : String} {n : Nat} (h : env.text? indentSizeName = some value)
    (hSpells : SpellsIndent value n) : o.override env = .ok { o with indentSize := n } := by
  unfold override
  rw [h]
  simp only [indentSizeOf?_eq_some_iff.mpr hSpells]

/-- A text that spells no indentation is refused, and nothing else is. -/
theorem override_eq_error_iff {e : SettingsError} :
    o.override env = .error e ↔
      ∃ value, env.text? indentSizeName = some value ∧ (¬ ∃ n, SpellsIndent value n) ∧
        e = .invalidVariable indentSizeName value := by
  cases hSet : env.text? indentSizeName with
  | none =>
    rw [override_of_unset hSet]
    simp
  | some value =>
    simp only [Option.some.injEq, exists_eq_left']
    by_cases hSpells : ∃ n, SpellsIndent value n
    · obtain ⟨n, hn⟩ := hSpells
      rw [override_of_spells hSet hn]
      exact ⟨nofun, fun h => absurd ⟨n, hn⟩ h.1⟩
    · have hRefused : o.override env = .error (.invalidVariable indentSizeName value) := by
        unfold override
        rw [hSet]
        simp only [indentSizeOf?_eq_none_iff.mpr hSpells]
      rw [hRefused, Except.error.injEq]
      exact ⟨fun h => ⟨hSpells, h.symm⟩, fun h => h.2.symm⟩

/-- Whether the variable is refused does not depend on what it takes the place of. -/
theorem override_succeeds_iff :
    (∃ o', o.override env = .ok o') ↔
      ∀ value, env.text? indentSizeName = some value → ∃ n, SpellsIndent value n := by
  constructor
  · rintro ⟨o', hOk⟩ value hSet
    by_contra hSpells
    have hRefused : o.override env = .error (.invalidVariable indentSizeName value) :=
      override_eq_error_iff.mpr ⟨value, hSet, hSpells, rfl⟩
    rw [hOk] at hRefused
    cases hRefused
  · intro h
    cases hSet : env.text? indentSizeName with
    | none => exact ⟨o, override_of_unset hSet⟩
    | some value =>
      obtain ⟨n, hn⟩ := h value hSet
      exact ⟨_, override_of_spells hSet hn⟩

end GeneratorOptions

/-! ## Handing logging on -/

namespace LogSettings

/-- No setting holds NUL. -/
structure NulFree (s : LogSettings) : Prop where
  level : nul ∉ s.level.toList
  format : nul ∉ s.format.toList
  output : nul ∉ s.output.toList
  directory : nul ∉ s.directory.toList

/-- The environment with each setting in its variable. -/
def handedOn (s : LogSettings) (env : Environment) : Environment :=
  env.assign logLevelName (.unicode s.level)
    |>.assign logFormatName (.unicode s.format)
    |>.assign logOutputName (.unicode s.output)
    |>.assign logDirectoryName (.unicode s.directory)

theorem handedOn_indentSize (s : LogSettings) (env : Environment) :
    (s.handedOn env).text? indentSizeName = env.text? indentSizeName := by
  unfold handedOn
  rw [text?_assign_of_ne _ _ _ (by decide), text?_assign_of_ne _ _ _ (by decide),
    text?_assign_of_ne _ _ _ (by decide), text?_assign_of_ne _ _ _ (by decide)]

/-- In the environment that is handed on, logging finds the settings that were loaded,
whatever it would use else and whatever the variables held before. -/
theorem override_handedOn (t s : LogSettings) (env : Environment) :
    t.override (s.handedOn env) = s := by
  have hLevel : (s.handedOn env).text? logLevelName = some s.level := by
    unfold handedOn
    rw [text?_assign_of_ne _ _ _ (by decide), text?_assign_of_ne _ _ _ (by decide),
      text?_assign_of_ne _ _ _ (by decide), text?_assign_self]
  have hFormat : (s.handedOn env).text? logFormatName = some s.format := by
    unfold handedOn
    rw [text?_assign_of_ne _ _ _ (by decide), text?_assign_of_ne _ _ _ (by decide),
      text?_assign_self]
  have hOutput : (s.handedOn env).text? logOutputName = some s.output := by
    unfold handedOn
    rw [text?_assign_of_ne _ _ _ (by decide), text?_assign_self]
  have hDirectory : (s.handedOn env).text? logDirectoryName = some s.directory :=
    text?_assign_self ..
  unfold override
  rw [hLevel, hFormat, hOutput, hDirectory]
  rfl

end LogSettings

namespace Settings

variable {s : Settings} {env : Environment}

theorem exportLogging_eq_ok {env' : Environment} :
    s.exportLogging env = .ok env' ↔ s.logging.NulFree ∧ s.logging.handedOn env = env' := by
  have hLevel : NameAllowed logLevelName := by decide
  have hFormat : NameAllowed logFormatName := by decide
  have hOutput : NameAllowed logOutputName := by decide
  have hDirectory : NameAllowed logDirectoryName := by decide
  unfold exportLogging
  simp only [bind_eq_ok, set_eq_ok]
  constructor
  · rintro ⟨_, ⟨⟨-, h₁⟩, rfl⟩, _, ⟨⟨-, h₂⟩, rfl⟩, _, ⟨⟨-, h₃⟩, rfl⟩, ⟨-, h₄⟩, rfl⟩
    exact ⟨⟨h₁, h₂, h₃, h₄⟩, rfl⟩
  · rintro ⟨h, rfl⟩
    exact ⟨_, ⟨⟨hLevel, h.level⟩, rfl⟩, _, ⟨⟨hFormat, h.format⟩, rfl⟩, _,
      ⟨⟨hOutput, h.output⟩, rfl⟩, ⟨hDirectory, h.directory⟩, rfl⟩

/-- The settings of logging can be handed on unless one of them holds NUL. -/
theorem exportLogging_succeeds_iff :
    (∃ env', s.exportLogging env = .ok env') ↔ s.logging.NulFree := by
  simp only [exportLogging_eq_ok, exists_and_left, exists_eq', and_true]

/-- What cannot be handed on is a setting that holds NUL, under its own variable. -/
theorem exportLogging_eq_error {u : Unsettable} (h : s.exportLogging env = .error u) :
    nul ∈ u.value.toList ∧
      (u.name, u.value) ∈ [(logLevelName, s.logging.level), (logFormatName, s.logging.format),
        (logOutputName, s.logging.output), (logDirectoryName, s.logging.directory)] := by
  unfold exportLogging at h
  simp only [bind_eq_error, set_eq_error] at h
  -- each variable is set only once those before it are
  rcases h with ⟨h, rfl⟩ | ⟨_, -, ⟨h, rfl⟩ | ⟨_, -, ⟨h, rfl⟩ | ⟨_, -, h, rfl⟩⟩⟩ <;>
    exact ⟨nul_mem_of_not_settable (by decide) h, by simp⟩

end Settings

/-! ## All settings -/

namespace Settings

/-- The settings before the environment is looked at: those of the file, and without one
the defaults. -/
inductive Given : Option (Except String String) → Settings → Prop where
  | default : Given none {}
  | file {contents : Except String String} {s : Settings} (h : ofFile contents = .ok s) :
      Given (some contents) s

/-- A variable that holds a text decides its setting, the others stay as they were. -/
structure Follows (s : Settings) (env : Environment) (loaded : Settings) : Prop where
  indentSize_set : ∀ value, env.text? "COSQL_INDENT_SIZE" = some value →
    SpellsIndent value loaded.generator.indentSize
  indentSize_unset : env.text? "COSQL_INDENT_SIZE" = none →
    loaded.generator.indentSize = s.generator.indentSize
  level : loaded.logging.level = (env.text? "RUST_LOG").getD s.logging.level
  format : loaded.logging.format = (env.text? "LOG_FORMAT").getD s.logging.format
  output : loaded.logging.output = (env.text? "LOG_OUTPUT").getD s.logging.output
  directory : loaded.logging.directory = (env.text? "LOG_DIR").getD s.logging.directory

variable {file : Option (Except String String)} {s : Settings} {env : Environment}

theorem Given.load_eq (h : Given file s) (env : Environment) :
    load file env =
      (s.generator.override env).map fun generator =>
        { generator, logging := s.logging.override env } := by
  cases h with
  | default => rfl
  | file hFile =>
    show (ofFile _ >>= fun s => s.override env) = _
    rw [hFile]
    rfl

theorem follows_of_override {generator : GeneratorOptions}
    (h : s.generator.override env = .ok generator) :
    Follows s env { generator, logging := s.logging.override env } where
  indentSize_set value hSet := by
    obtain ⟨n, hn⟩ := GeneratorOptions.override_succeeds_iff.mp ⟨generator, h⟩ value hSet
    rw [GeneratorOptions.override_of_spells hSet hn] at h
    obtain rfl := Except.ok.inj h
    exact hn
  indentSize_unset hUnset := by
    rw [GeneratorOptions.override_of_unset hUnset] at h
    obtain rfl := Except.ok.inj h
    rfl
  level := rfl
  format := rfl
  output := rfl
  directory := rfl

/-- The settings of logging that were handed on are loaded again. The indentation is read
once more in passing, and is no more refused than the first time. -/
theorem load_handedOn {loaded : Settings} (h : load file env = .ok loaded)
    (hGiven : Given file s) :
    (load none (loaded.logging.handedOn env)).map Settings.logging = .ok loaded.logging := by
  rw [hGiven.load_eq, map_eq_ok] at h
  obtain ⟨generator, hGenerator, -⟩ := h
  have hSpells := GeneratorOptions.override_succeeds_iff.mp ⟨generator, hGenerator⟩
  obtain ⟨generator', hAgain⟩ :
      ∃ o', (({} : Settings).generator.override (loaded.logging.handedOn env)) = .ok o' := by
    refine GeneratorOptions.override_succeeds_iff.mpr ?_
    rwa [LogSettings.handedOn_indentSize]
  rw [Given.default.load_eq, hAgain]
  exact congrArg Except.ok (LogSettings.override_handedOn _ loaded.logging env)

/-- A variable is refused exactly if that of the indentation holds a text that spells none,
whatever the other variables hold. Else all settings follow their variables, and those of
logging survive being handed on unless one of them holds NUL. -/
theorem load_overrides (h : Given file s) (env : Environment) :
    (∀ e, load file env = .error e ↔
      ∃ value, env.text? "COSQL_INDENT_SIZE" = some value ∧ (¬ ∃ n, SpellsIndent value n) ∧
        e = .invalidVariable "COSQL_INDENT_SIZE" value) ∧
    ((∀ value, env.text? "COSQL_INDENT_SIZE" = some value → ∃ n, SpellsIndent value n) →
      ∃ loaded, load file env = .ok loaded ∧ Follows s env loaded ∧
        (loaded.logging.NulFree → ∃ env', loaded.exportLogging env = .ok env' ∧
          (load none env').map Settings.logging = .ok loaded.logging)) := by
  constructor
  · intro e
    rw [h.load_eq, map_eq_error]
    exact GeneratorOptions.override_eq_error_iff
  · intro hSpells
    obtain ⟨generator, hGenerator⟩ :=
      (GeneratorOptions.override_succeeds_iff (o := s.generator)).mpr hSpells
    have hLoad : load file env = .ok { generator, logging := s.logging.override env } := by
      rw [h.load_eq, hGenerator]
      rfl
    refine ⟨_, hLoad, follows_of_override hGenerator, fun hFree => ?_⟩
    exact ⟨_, exportLogging_eq_ok.mpr ⟨hFree, rfl⟩, load_handedOn hLoad h⟩

/-- Zeros lead, a variable takes the place of a line of the file, one that holds no text
does not, and a sign is refused. -/
theorem load_overrides_compactFile :
    let file : Option (Except String String) :=
      some (.ok "logging:\n  level: info\n  format: json\n")
    let others := (Environment.ofList [("LOG_FORMAT", "pretty"), ("LOG_DIR", "/var/log")]).assign
      "RUST_LOG" (.other "\ufffd")
    let env := others.assign "COSQL_INDENT_SIZE" (.unicode "+007")
    let loaded : Settings := ⟨⟨7⟩, ⟨"info", "pretty", "stderr", "/var/log"⟩⟩
    (∃ s, Given file s) ∧ load file env = .ok loaded ∧
      (∃ env', loaded.exportLogging env = .ok env' ∧
        (load none env').map Settings.logging = .ok loaded.logging) ∧
      load file (others.assign "COSQL_INDENT_SIZE" (.unicode "-7")) =
        .error (.invalidVariable "COSQL_INDENT_SIZE" "-7") := by
  intro file others env loaded
  have hGiven : Given file ⟨{}, { level := "info", format := "json" }⟩ :=
    .file (by decide +kernel)
  have hSpells : ∀ value, env.text? "COSQL_INDENT_SIZE" = some value →
      ∃ n, SpellsIndent value n := by
    rintro value hSet
    obtain rfl : "+007" = value := Option.some.inj hSet
    exact ⟨7, indentSizeOf?_eq_some_iff.mp rfl⟩
  obtain ⟨loaded', hLoad, -, hAgain⟩ := (load_overrides hGiven env).2 hSpells
  have hLoaded : load file env = .ok loaded := by
    rw [hGiven.load_eq]
    rfl
  obtain rfl : loaded' = loaded := Except.ok.inj (hLoad.symm.trans hLoaded)
  have hFree : loaded.logging.NulFree := ⟨by decide, by decide, by decide, by decide⟩
  have hRefused : ¬ ∃ n, SpellsIndent "-7" n := indentSizeOf?_eq_none_iff.mp rfl
  exact ⟨⟨_, hGiven⟩, hLoad, hAgain hFree,
    ((load_overrides hGiven _).1 _).mpr ⟨"-7", rfl, hRefused, rfl⟩⟩

/-- A variable whose value is no text is neither refused nor followed, and a setting of the
file that holds NUL is not handed on. -/
theorem not_load_overrides :
    (¬ ∀ (file : Option (Except String String)) (s : Settings) (env : Environment),
      Given file s → (env "COSQL_INDENT_SIZE").isSome = true →
        (∀ value n, env "COSQL_INDENT_SIZE" = some (.unicode value) → ¬ SpellsIndent value n) →
        ∃ e, load file env = .error e) ∧
    (¬ ∀ (file : Option (Except String String)) (s : Settings) (env : Environment)
      (loaded : Settings) (held : SystemText), Given file s → load file env = .ok loaded →
        env "RUST_LOG" = some held → held = .unicode loaded.logging.level) ∧
    ¬ ∀ (file : Option (Except String String)) (s : Settings) (env : Environment)
      (loaded : Settings), Given file s → load file env = .ok loaded →
        ∃ env', loaded.exportLogging env = .ok env' ∧
          (load none env').map Settings.logging = .ok loaded.logging := by
  -- every variable holds the same bytes, which are no text
  let stray : Environment := fun _ => some (.other "\ufffd")
  have hStray : load none stray = .ok {} := rfl
  refine ⟨fun hRefused => ?_, fun hFollowed => ?_, fun hHandedOn => ?_⟩
  · obtain ⟨e, hError⟩ := hRefused none {} stray .default rfl fun _ _ hText => by cases hText
    rw [hStray] at hError
    cases hError
  · cases hFollowed none {} stray {} (.other "\ufffd") .default hStray rfl
  · let level : String := String.ofList [nul]
    have hGiven : Given (some (.ok "logging:\n  level: \"\\0\"\n")) ⟨{}, { level }⟩ :=
      .file (by decide +kernel)
    have hLoad : load (some (.ok "logging:\n  level: \"\\0\"\n")) (.ofList []) =
        .ok ⟨{}, { level }⟩ := by
      rw [hGiven.load_eq]
      rfl
    obtain ⟨env', hExported, -⟩ := hHandedOn _ _ _ _ hGiven hLoad
    exact (exportLogging_eq_ok.mp hExported).1.level (by decide)

end Settings

/-! ## Runs -/

/-- A command fails in a way of its own, never because a variable cannot be set. -/
theorem Command.run_ne_unsettable (surroundings : Surroundings) (settings : Settings)
    (command : Command) (u : Unsettable) :
    command.run surroundings settings ≠ .error (.unsettable u) := by
  have hSelect : ∀ path, readSelect surroundings path ≠ .error (.unsettable u) := by
    intro path h
    rcases bind_eq_error.mp h with h | ⟨text, -, h⟩
    · exact mapError_ne_error nofun h
    · exact mapError_ne_error nofun h
  have hValues : ∀ path, readValues surroundings path ≠ .error (.unsettable u) := by
    intro path h
    cases path with
    | none => cases h
    | some path =>
      rcases bind_eq_error.mp h with h | ⟨text, -, h⟩
      · exact mapError_ne_error nofun h
      · exact mapError_ne_error nofun h
  intro h
  cases command with
  | generate query parameters format =>
    rcases bind_eq_error.mp h with h | ⟨select, -, h⟩
    · exact hSelect _ h
    rcases bind_eq_error.mp h with h | ⟨values, -, h⟩
    · exact hValues _ h
    rcases bind_eq_error.mp h with h | ⟨q, -, h⟩
    · exact mapError_ne_error nofun h
    · cases h
  | fingerprint query =>
    rcases bind_eq_error.mp h with h | ⟨select, -, h⟩
    · exact hSelect _ h
    · cases h

/-- A run ends without a result exactly if its settings are loaded and one of those of
logging holds NUL, whatever the command is and whatever documents it names. -/
theorem Invocation.run_breaksOff_iff {surroundings : Surroundings} {env : Environment}
    {i : Invocation} :
    (∃ u, i.run surroundings env = .error (.unsettable u)) ↔
      ∃ loaded, Settings.load (i.settings.map surroundings.files) env = .ok loaded ∧
        ¬ loaded.logging.NulFree := by
  constructor
  · rintro ⟨u, h⟩
    rcases bind_eq_error.mp h with h | ⟨loaded, hLoad, h⟩
    · exact absurd h (mapError_ne_error nofun)
    · refine ⟨loaded, mapError_eq_ok.mp hLoad, fun hFree => ?_⟩
      rcases bind_eq_error.mp h with hExport | ⟨_, -, hRun⟩
      · obtain ⟨env', hExported⟩ := Settings.exportLogging_succeeds_iff.mpr hFree
        rw [hExported] at hExport
        cases hExport
      · exact Command.run_ne_unsettable _ _ _ _ hRun
  · rintro ⟨loaded, hLoad, hNul⟩
    cases hExport : loaded.exportLogging env with
    | error u =>
      refine ⟨u, ?_⟩
      unfold Invocation.run
      rw [hLoad]
      show ((loaded.exportLogging env).mapError Failure.unsettable >>= _) = _
      rw [hExport]
      rfl
    | ok env' => exact absurd (Settings.exportLogging_succeeds_iff.mp ⟨env', hExport⟩) hNul

end DocumentQuery
