import OffsideRule.Program.Run
import OffsideRule.Proofs.FileAccess
import OffsideRule.Proofs.Sources

/-! What a run that does not watch leaves behind. A run is refused for want of settings, or it
processes the input once; only a run that succeeds writes anything. -/

namespace OffsideRule

/-- The file at a path is a text. -/
def Files.Holds (f : Files) (p : Path) (text : Text) : Prop :=
  ∃ bytes, f.read p = .ok bytes ∧ Utf8.decode bytes = .ok text

namespace Program

/-- The settings for a command line and the layout that they select. -/
def Resolves (limits : Toml.Limits) (a : Arguments) (files : Files) (s : Settings)
    (c : Layout.Config) : Prop :=
  Settings.resolve limits a files = .ok s ∧ s.layout = .ok c

/-- Why there are no settings, or why they select no layout. -/
def Refused (limits : Toml.Limits) (a : Arguments) (files : Files) (failure : Settings.Failure) :
    Prop :=
  Settings.resolve limits a files = .error failure ∨
    ∃ s, Settings.resolve limits a files = .ok s ∧ s.layout = .error failure

variable {limits : Toml.Limits} {a : Arguments} {words : List String} {files : Files}
  {s : Settings} {c : Layout.Config}

section Process

theorem readSource_eq_ok_iff {path : Path} {source : Text} :
    readSource files path = .ok source ↔
      ∃ text, files.Holds path text ∧ source = text.unifyLineEnds := by
  simp only [readSource, bind_eq_ok_iff, mapError_eq_ok_iff, Files.Holds]
  constructor
  · rintro ⟨bytes, hread, text, htext, h⟩
    cases h
    exact ⟨text, ⟨bytes, hread, htext⟩, rfl⟩
  · rintro ⟨text, ⟨bytes, hread, htext⟩, rfl⟩
    exact ⟨bytes, hread, text, htext, rfl⟩

theorem process_of_tokenize {text : Text} {tokens : List Token} {r : Layout.Resolution}
    (hinput : files.Holds s.input text) (h : tokenize text.unifyLineEnds = .ok tokens)
    (hr : Layout.resolveText c text.unifyLineEnds = .ok r) :
    process s c files =
      .ok ⟨render s.format r.tokens text.unifyLineEnds, notes s tokens r⟩ := by
  have hsource := readSource_eq_ok_iff.mpr ⟨text, hinput, rfl⟩
  simp only [process, hsource, h, hr, Except.mapError, bind, Except.bind, pure, Except.pure]

theorem process_of_fault {text : Text} {fault : Fault} (hinput : files.Holds s.input text)
    (h : tokenize text.unifyLineEnds = .error fault) :
    process s c files = .error (.unreadable fault) := by
  have hsource := readSource_eq_ok_iff.mpr ⟨text, hinput, rfl⟩
  simp only [process, hsource, h, Except.mapError, bind, Except.bind]

theorem process_of_malformed {bytes : Bytes} {m : Utf8.Malformed}
    (hread : files.read s.input = .ok bytes) (h : Utf8.decode bytes = .error m) :
    process s c files = .error (.undecodable m) := by
  simp only [process, readSource, hread, h, Except.mapError, bind, Except.bind]

theorem process_of_unread {e : FileError} (h : files.read s.input = .error e) :
    process s c files = .error (.file e) := by
  simp only [process, readSource, h, Except.mapError, bind, Except.bind]

/-- An input that can be read as tokens is processed. Otherwise it is a text that cannot be read as
tokens, or a file that is no text, or it cannot be read at all. -/
theorem process_cases (s : Settings) (c : Layout.Config) (files : Files) :
    (∃ text tokens p, files.Holds s.input text ∧ tokenize text.unifyLineEnds = .ok tokens ∧
      process s c files = .ok p) ∨
    (∃ text fault, files.Holds s.input text ∧ tokenize text.unifyLineEnds = .error fault ∧
      process s c files = .error (.unreadable fault)) ∨
    (∃ bytes m, files.read s.input = .ok bytes ∧ Utf8.decode bytes = .error m ∧
      process s c files = .error (.undecodable m)) ∨
    ∃ e, files.read s.input = .error e ∧ process s c files = .error (.file e) := by
  cases hread : files.read s.input with
  | error e => exact .inr (.inr (.inr ⟨e, rfl, process_of_unread hread⟩))
  | ok bytes =>
    cases hdecode : Utf8.decode bytes with
    | error m =>
      exact .inr (.inr (.inl ⟨bytes, m, rfl, hdecode, process_of_malformed hread hdecode⟩))
    | ok text =>
      have hinput : files.Holds s.input text := ⟨bytes, hread, hdecode⟩
      cases htokens : tokenize text.unifyLineEnds with
      | error fault =>
        exact .inr (.inl ⟨text, fault, hinput, htokens, process_of_fault hinput htokens⟩)
      | ok tokens =>
        have hr := Layout.resolveText_of_tokenize c htokens
        exact .inl ⟨text, tokens, _, hinput, htokens, process_of_tokenize hinput htokens hr⟩

end Process

section Once

theorem deliver_of_none (hs : s.output = none) (output : String) :
    deliver s files output = .ok ⟨output, files⟩ := by
  rw [deliver, hs]

theorem deliver_of_some {path : Path} (hs : s.output = some path) (output : String) :
    deliver s files output =
      (files.write path (Utf8.encode output)).map fun written => ⟨"", written⟩ := by
  rw [deliver, hs]

/-- What delivering a text leaves behind: the text on the standard output and the files as they
were, or nothing there and the text in the output file. -/
structure Delivers (s : Settings) (files : Files) (output : String) (stdout : String)
    (left : Files) : Prop where
  shown : s.output = none → stdout = output ∧ left = files
  written : ∀ path, s.output = some path → stdout = "" ∧ files.Wrote left path output

theorem delivers_of_deliver {output : String} {d : Delivery} (h : deliver s files output = .ok d) :
    Delivers s files output d.stdout d.files := by
  cases hs : s.output with
  | none =>
    rw [deliver_of_none hs, Except.ok.injEq] at h
    subst h
    exact ⟨fun _ => ⟨rfl, rfl⟩, by simp [hs]⟩
  | some path =>
    rw [deliver_of_some hs] at h
    refine ⟨by simp [hs], fun path' hpath => ?_⟩
    obtain rfl : path = path' := by simpa [hs] using hpath
    cases hwrite : files.write path (Utf8.encode output) with
    | error e => rw [hwrite] at h; cases h
    | ok written =>
      rw [hwrite] at h
      cases h
      exact ⟨rfl, Files.wrote_of_write hwrite⟩

variable {e : FileError} {p : Processed} {d : Delivery}

theorem once_of_error {e : ProcessError} (h : process s c files = .error e)
    (hfatal : e.fatal? = none) :
    once s c files = ⟨.exit e.exitCode, "", e.report s.input, files⟩ := by
  delta once
  simp only [h, hfatal]

theorem once_of_fatal (h : process s c files = .error (.file e)) (hfatal : e.isFatal = true) :
    once s c files = ⟨.breakdown (.file e), "", "", files⟩ := by
  delta once
  simp only [h, ProcessError.fatal?, hfatal, if_true]

theorem once_of_undelivered (h : process s c files = .ok p)
    (hd : deliver s files p.output = .error e) :
    once s c files = ⟨.breakdown (.file e), "", p.notes, files⟩ := by
  delta once
  simp only [h, hd]

theorem once_of_delivered (h : process s c files = .ok p) (hd : deliver s files p.output = .ok d) :
    once s c files = ⟨.exit 0, d.stdout, p.notes, d.files⟩ := by
  delta once
  simp only [h, hd]

/-- The run fails, shows nothing on the standard output and leaves the files as they were. -/
def Silent (files : Files) (r : Run) : Prop :=
  r.ending ≠ .exit 0 ∧ r.stdout = "" ∧ r.files = files

theorem ProcessError.exitCode_ne_zero (e : ProcessError) : e.exitCode ≠ 0 := by
  cases e <;> simp [exitCode]

theorem silent_of_process_error {e : ProcessError} (h : process s c files = .error e) :
    Silent files (once s c files) := by
  delta once
  simp only [h]
  cases e.fatal? with
  | none => exact ⟨by simp [e.exitCode_ne_zero], rfl, rfl⟩
  | some e' => exact ⟨nofun, rfl, rfl⟩

theorem once_writes (s : Settings) (c : Layout.Config) (files : Files) :
    Silent files (once s c files) ∨
      (once s c files).ending = .exit 0 ∧ ∃ p, process s c files = .ok p ∧
        Delivers s files p.output (once s c files).stdout (once s c files).files := by
  cases hprocess : process s c files with
  | error e => exact .inl (silent_of_process_error hprocess)
  | ok p =>
    cases hdeliver : deliver s files p.output with
    | error e =>
      rw [once_of_undelivered hprocess hdeliver]
      exact .inl ⟨nofun, rfl, rfl⟩
    | ok d =>
      rw [once_of_delivered hprocess hdeliver]
      exact .inr ⟨rfl, p, rfl, delivers_of_deliver hdeliver⟩

end Once

section Execute

theorem watch_of_resolve (h : Settings.resolve limits a files = .ok s) : s.watch = a.watch := by
  rw [Settings.resolve, bind_eq_ok_iff] at h
  obtain ⟨doc, -, h⟩ := h
  rw [Settings.ofTable] at h
  split at h
  · cases h; rfl
  · cases h

theorem execute_of_refused {failure : Settings.Failure} (h : Arguments.parse words = .ok a)
    (hrefused : Refused limits a files failure) :
    execute limits words files = some (refuse files failure) := by
  simp only [execute, plan, h]
  obtain hresolve | ⟨s, hresolve, hlayout⟩ := hrefused
  · simp only [hresolve]
  · simp only [hresolve, hlayout]

theorem execute_of_resolves (h : Arguments.parse words = .ok a) (hwatch : a.watch = false)
    (hresolves : Resolves limits a files s c) :
    execute limits words files = some (once s c files) := by
  have hs : s.watch = false := (watch_of_resolve hresolves.1).trans hwatch
  simp only [execute, plan, h, hresolves.1, hresolves.2, hs, Bool.false_eq_true, if_false]

theorem refused_or_resolves (limits : Toml.Limits) (a : Arguments) (files : Files) :
    (∃ failure, Refused limits a files failure) ∨ ∃ s c, Resolves limits a files s c := by
  cases hresolve : Settings.resolve limits a files with
  | error failure => exact .inl ⟨failure, .inl hresolve⟩
  | ok s =>
    cases hlayout : s.layout with
    | error failure => exact .inl ⟨failure, .inr ⟨s, hresolve, hlayout⟩⟩
    | ok c => exact .inr ⟨s, c, hresolve, hlayout⟩

theorem silent_refuse (files : Files) (failure : Settings.Failure) :
    Silent files (refuse files failure) := by
  cases failure with
  | config e => exact ⟨by simp [refuse], rfl, rfl⟩
  | breakdown b => exact ⟨nofun, rfl, rfl⟩

/-- A run that does not succeed shows nothing on the standard output and leaves the files as they
were. One that succeeds delivers the result of processing, and touches no file but the one it was
asked to write. -/
theorem execute_writes (limits : Toml.Limits) (h : Arguments.parse words = .ok a)
    (hwatch : a.watch = false) (files : Files) :
    ∃ r, execute limits words files = some r ∧
      (r.ending ≠ .exit 0 → r.stdout = "" ∧ r.files = files) ∧
      (r.ending = .exit 0 → ∃ s c p, Resolves limits a files s c ∧ process s c files = .ok p ∧
        Delivers s files p.output r.stdout r.files) := by
  obtain ⟨failure, hrefused⟩ | ⟨s, c, hresolves⟩ := refused_or_resolves limits a files
  · have hrun := execute_of_refused h hrefused
    obtain ⟨hending, hsilent⟩ := silent_refuse files failure
    exact ⟨_, hrun, fun _ => hsilent, fun hzero => absurd hzero hending⟩
  · have hrun := execute_of_resolves h hwatch hresolves
    obtain ⟨hending, hsilent⟩ | ⟨hzero, p, hprocess, hdelivers⟩ := once_writes s c files
    · exact ⟨_, hrun, fun _ => hsilent, fun hzero => absurd hzero hending⟩
    · exact ⟨_, hrun, fun hending => absurd hzero hending,
        fun _ => ⟨s, c, p, hresolves, hprocess, hdelivers⟩⟩

/-- A single file, below the working directory. -/
def singleFile (name text : String) : Files :=
  ⟨[(.ofString name, .file (Utf8.encode text) 0)]⟩

/-- A command line whose output file is its input. -/
def overwriting : List String :=
  ["a.hs", "-fbraces", "-o", "a.hs"]

theorem execute_writes_overwriting :
    ∃ r text, execute .usual overwriting (singleFile "a.hs" "do x") = some r ∧
      r.stdout = "" ∧ (singleFile "a.hs" "do x").Wrote r.files (.ofString "a.hs") text := by
  let a : Arguments :=
    ⟨"a.hs", some "a.hs", some (some .braces), [], false, none, false, false, false⟩
  obtain ⟨r, hrun, -, hwrites⟩ := execute_writes .usual
    (show Arguments.parse overwriting = .ok a by decide +kernel) rfl (singleFile "a.hs" "do x")
  have hending : (execute .usual overwriting (singleFile "a.hs" "do x")).map (·.ending) =
      some (.exit 0) := by decide +kernel
  rw [hrun, Option.map_some, Option.some.injEq] at hending
  obtain ⟨s, c, p, ⟨hresolve, -⟩, -, hdelivers⟩ := hwrites hending
  have houtput : (Settings.resolve .usual a (singleFile "a.hs" "do x")).toOption.map
      (·.output) = some (some (.ofString "a.hs")) := by decide +kernel
  rw [hresolve, Except.toOption, Option.map_some, Option.some.injEq] at houtput
  exact ⟨r, p.output, hrun, hdelivers.written _ houtput⟩

end Execute

end Program

end OffsideRule
