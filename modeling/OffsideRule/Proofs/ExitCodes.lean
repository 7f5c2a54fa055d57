import OffsideRule.Proofs.Merging
import OffsideRule.Proofs.Outcomes

/-! How a run that does not watch ends. It answers with an exit code, or something breaks it off:
what the configuration file holds or where it lies, a path that is none, or an output file that
cannot be written. -/

namespace OffsideRule

namespace Files

variable {f g : Files} {p : Path} {content content' : Bytes} {e : FileError}

/-- A file can be written at the path. -/
def Writable (f : Files) (p : Path) : Prop :=
  ∃ place, f.locate p = .ok place ∧ f.Free place

theorem writable_of_write (h : f.write p content = .ok g) : f.Writable p := by
  obtain ⟨place, -, hplace, hfree, -⟩ := write_eq_ok h
  exact ⟨place, hplace, hfree⟩

theorem write_of_writable (h : f.Writable p) (content : Bytes) :
    ∃ g, f.write p content = .ok g := by
  obtain ⟨place, hplace, hfree⟩ := h
  cases hnode : f.node? place with
  | none => exact ⟨_, bind_eq_ok_iff.mpr ⟨place, hplace, by simp only [hnode]; rfl⟩⟩
  | some node =>
    cases node with
    | directory time => exact absurd hnode (hfree time)
    | file old time => exact ⟨_, bind_eq_ok_iff.mpr ⟨place, hplace, by simp only [hnode]; rfl⟩⟩

/-- Whether a path can be written does not depend on what is written. -/
theorem write_error (h : f.write p content = .error e) (content' : Bytes) :
    f.write p content' = .error e := by
  rw [write, bind_eq_error_iff] at h ⊢
  obtain h | ⟨place, hplace, h⟩ := h
  · exact .inl h
  · refine .inr ⟨place, hplace, ?_⟩
    split at h
    · exact h
    · cases h
    · cases h

theorem isFile_of_read (h : f.read p = .ok content) : f.isFile p = .ok true := by
  obtain ⟨time, hfind⟩ := read_eq_ok_iff.mp h
  rw [isFile, hfind]

theorem read_of_isFile (h : f.isFile p = .ok true) : ∃ content, f.read p = .ok content := by
  rw [isFile] at h
  split at h
  · next content time hfind => exact ⟨content, read_eq_ok_iff.mpr ⟨time, hfind⟩⟩
  · cases h
  · split at h <;> cases h

theorem isFile_eq_error_iff : f.isFile p = .error e ↔ f.find p = .error e ∧ e.cause = .tooLong := by
  rw [isFile]
  split
  · next hfind => simp [hfind]
  · next hfind => simp [hfind]
  · next e' hfind =>
    rw [hfind]
    by_cases hlong : e'.cause = .tooLong
    · rw [if_pos hlong]
      constructor
      · rintro h; cases h; exact ⟨rfl, hlong⟩
      · rintro ⟨h, -⟩; cases h; rfl
    · rw [if_neg hlong]
      constructor
      · rintro h; cases h
      · rintro ⟨h, hlong'⟩; cases h; exact absurd hlong' hlong

end Files

namespace Program

variable {limits : Toml.Limits} {a : Arguments} {words : List String} {files : Files}
  {s : Settings} {c : Layout.Config}

/-- What breaks off a run. -/
inductive Escapes (limits : Toml.Limits) (a : Arguments) (files : Files) : Breakdown → Prop
  /-- The path of the configuration file is too long. -/
  | configPath {e : FileError} (h : files.find (Settings.configPath a) = .error e)
      (hlong : e.cause = .tooLong) : Escapes limits a files (.file e)
  /-- The configuration file is no text. -/
  | configBytes {bytes : Bytes} {m : Utf8.Malformed}
      (h : files.read (Settings.configPath a) = .ok bytes) (hm : Utf8.decode bytes = .error m) :
      Escapes limits a files (.undecodable m)
  /-- An integer in the configuration file is too long. -/
  | configDigits {text : Text} {count : Nat} (h : files.Holds (Settings.configPath a) text)
      (hcount : Toml.parse limits text.dropReturns = .error (.tooManyDigits count)) :
      Escapes limits a files (.tooManyDigits count)
  /-- Values lie too deep in one another in the configuration file. -/
  | configDepth {text : Text} (h : files.Holds (Settings.configPath a) text)
      (hdeep : Toml.parse limits text.dropReturns = .error .tooDeep) :
      Escapes limits a files .tooDeep
  /-- The format in the configuration file is wrong, and the message about it cannot show it. -/
  | configFormat {doc : Toml.Table} {v : Toml.Value} {u : Toml.Unshown}
      (h : Settings.load limits files (Settings.configPath a) = .ok doc)
      (hv : Settings.FileSettings.ofTable doc = .error (.badFormat v))
      (hu : v.shown limits 0 = .error u) : Escapes limits a files (.unshown u)
  /-- A keyword was left blank, and the keywords before it are all known. -/
  | keyword {s : Settings} (h : Settings.resolve limits a files = .ok s)
      (hs : s.layout = .error (.breakdown .blankKeyword)) : Escapes limits a files .blankKeyword
  /-- A null character is in the path of the input. -/
  | input {s : Settings} {c : Layout.Config} {e : FileError} (h : Resolves limits a files s c)
      (he : files.read s.input = .error e) (hnull : s.input.HasNull) :
      Escapes limits a files (.file e)
  /-- The output file cannot be written. -/
  | output {s : Settings} {c : Layout.Config} {text : Text} {tokens : List Token} {path : Path}
      {e : FileError} (h : Resolves limits a files s c) (hinput : files.Holds s.input text)
      (htokens : tokenize text.unifyLineEnds = .ok tokens) (hs : s.output = some path)
      (he : ∀ content, files.write path content = .error e) : Escapes limits a files (.file e)

/-- The ways in which a run ends. -/
inductive Ends (limits : Toml.Limits) (a : Arguments) (files : Files) : Ending → Prop
  | success {s : Settings} {c : Layout.Config} {text : Text} {tokens : List Token}
      (h : Resolves limits a files s c) (hinput : files.Holds s.input text)
      (htokens : tokenize text.unifyLineEnds = .ok tokens)
      (hs : ∀ path, s.output = some path → files.Writable path) : Ends limits a files (.exit 0)
  | fault {s : Settings} {c : Layout.Config} {text : Text} {fault : Fault}
      (h : Resolves limits a files s c) (hinput : files.Holds s.input text)
      (hfault : tokenize text.unifyLineEnds = .error fault) : Ends limits a files (.exit 1)
  | config {e : ConfigError} (h : Refused limits a files (.config e)) :
      Ends limits a files (.exit 2)
  | unread {s : Settings} {c : Layout.Config} {e : FileError} (h : Resolves limits a files s c)
      (he : files.read s.input = .error e) (hnull : ¬ s.input.HasNull) :
      Ends limits a files (.exit 2)
  | undecodable {s : Settings} {c : Layout.Config} {bytes : Bytes} {m : Utf8.Malformed}
      (h : Resolves limits a files s c) (hread : files.read s.input = .ok bytes)
      (hm : Utf8.decode bytes = .error m) : Ends limits a files (.exit 2)
  | escape {b : Breakdown} (h : Escapes limits a files b) : Ends limits a files (.breakdown b)

section Refusal

variable {path : Path} {failure : Settings.Failure} {b : Breakdown}

theorem load_of_read {bytes : Bytes} (h : files.read path = .ok bytes) :
    Settings.load limits files path =
      ((Utf8.decode bytes).mapError (Settings.Failure.breakdown ∘ .undecodable) >>= fun text =>
        (Toml.parse limits text.dropReturns).mapError
          (Settings.ofRefusal path text.dropReturns)) := by
  simp only [Settings.load, Files.isFile_of_read h, h, Except.mapError, bind, Except.bind,
    Bool.not_true, Bool.false_eq_true, if_false]

theorem load_of_no_file (h : files.isFile path = .ok false) :
    Settings.load limits files path = .ok [] := by
  simp only [Settings.load, h, Except.mapError, bind, Except.bind, Bool.not_false, if_true, pure,
    Except.pure]

theorem load_of_isFile_error {e : FileError} (h : files.isFile path = .error e) :
    Settings.load limits files path = .error (.breakdown (.file e)) := by
  simp only [Settings.load, h, Except.mapError, bind, Except.bind, Function.comp]

theorem load_of_malformed {bytes : Bytes} {m : Utf8.Malformed} (hread : files.read path = .ok bytes)
    (hm : Utf8.decode bytes = .error m) :
    Settings.load limits files path = .error (.breakdown (.undecodable m)) := by
  rw [load_of_read hread, hm]
  rfl

theorem load_of_refused {text : Text} {r : Toml.Refusal} (h : files.Holds path text)
    (hr : Toml.parse limits text.dropReturns = .error r) :
    Settings.load limits files path = .error (Settings.ofRefusal path text.dropReturns r) := by
  obtain ⟨bytes, hread, htext⟩ := h
  rw [load_of_read hread, htext]
  simp only [Except.mapError, bind, Except.bind, hr]

theorem refused_of_load (h : Settings.load limits files (Settings.configPath a) = .error failure) :
    Refused limits a files failure :=
  .inl (bind_eq_error_iff.mpr (.inl h))

theorem escapes_of_load
    (h : Settings.load limits files (Settings.configPath a) = .error (.breakdown b)) :
    Escapes limits a files b := by
  cases hfile : files.isFile (Settings.configPath a) with
  | error e =>
    rw [load_of_isFile_error hfile] at h
    cases h
    obtain ⟨hfind, hlong⟩ := Files.isFile_eq_error_iff.mp hfile
    exact .configPath hfind hlong
  | ok isFile =>
    cases isFile with
    | false => rw [load_of_no_file hfile] at h; cases h
    | true =>
      obtain ⟨bytes, hread⟩ := Files.read_of_isFile hfile
      rw [load_of_read hread, bind_eq_error_iff] at h
      obtain h | ⟨text, htext, h⟩ := h
      · obtain ⟨m, hm, hb⟩ := mapError_eq_error_iff.mp h
        cases hb
        exact .configBytes hread hm
      · have hholds : files.Holds (Settings.configPath a) text :=
          ⟨bytes, hread, mapError_eq_ok_iff.mp htext⟩
        obtain ⟨r, hr, hb⟩ := mapError_eq_error_iff.mp h
        cases r with
        | malformed flaw left => cases hb
        | tooManyDigits count => cases hb; exact .configDigits hholds hr
        | tooDeep => cases hb; exact .configDepth hholds hr

/-- A document breaks off a run only where a format that is wrong cannot be shown. -/
theorem ofTable_breakdown {doc : Toml.Table}
    (h : Settings.ofTable limits a doc = .error (.breakdown b)) :
    ∃ v u, Settings.FileSettings.ofTable doc = .error (.badFormat v) ∧
      v.shown limits 0 = .error u ∧ b = .unshown u := by
  obtain ⟨problem, hproblem, hb⟩ := Settings.ofTable_eq_error_iff.mp h
  cases problem with
  | badFormat v =>
    cases hv : v.shown limits 0 with
    | ok text => simp [Settings.ofProblem, ConfigProblem.message, hv, bind, Except.bind, pure,
        Except.pure] at hb
    | error u =>
      simp only [Settings.ofProblem, ConfigProblem.message, hv, bind, Except.bind] at hb
      cases hb
      exact ⟨v, u, hproblem, hv, rfl⟩
  | _ => cases hb

theorem ofTable_of_unshown {doc : Toml.Table} {v : Toml.Value} {u : Toml.Unshown}
    (hv : Settings.FileSettings.ofTable doc = .error (.badFormat v))
    (hu : v.shown limits 0 = .error u) :
    Settings.ofTable limits a doc = .error (.breakdown (.unshown u)) := by
  refine Settings.ofTable_eq_error_iff.mpr ⟨_, hv, ?_⟩
  simp only [Settings.ofProblem, ConfigProblem.message, hu, bind, Except.bind]

theorem layout_breakdown (h : s.layout = .error (.breakdown b)) : b = .blankKeyword := by
  rw [Settings.layout] at h
  split at h
  · cases h
  · split at h
    · cases h
    · split at h
      · cases h
      · cases h; rfl

theorem escapes_of_refused (h : Refused limits a files (.breakdown b)) :
    Escapes limits a files b := by
  obtain h | ⟨s, hresolve, hlayout⟩ := h
  · obtain hload | ⟨doc, hload, h⟩ := Settings.resolve_eq_error_iff.mp h
    · exact escapes_of_load hload
    · obtain ⟨v, u, hv, hu, rfl⟩ := ofTable_breakdown h
      exact .configFormat hload hv hu
  · obtain rfl := layout_breakdown hlayout
    exact .keyword hresolve hlayout

end Refusal

section Once

variable {text : Text} {tokens : List Token} {e : FileError}

theorem ending_of_null (he : files.read s.input = .error e) (hnull : s.input.HasNull) :
    (once s c files).ending = .breakdown (.file e) := by
  have hfatal : e.isFatal = true := (Files.about_of_read he).isFatal.mpr hnull
  rw [once_of_fatal (process_of_unread he) hfatal]

theorem ending_of_unread (he : files.read s.input = .error e) (hnull : ¬ s.input.HasNull) :
    (once s c files).ending = .exit 2 := by
  have hfatal : ¬ e.isFatal = true := fun h => hnull ((Files.about_of_read he).isFatal.mp h)
  have hnone : (ProcessError.file e).fatal? = none := by rw [ProcessError.fatal?, if_neg hfatal]
  rw [once_of_error (process_of_unread he) hnone, ProcessError.exitCode]

theorem ending_of_malformed {bytes : Bytes} {m : Utf8.Malformed}
    (hread : files.read s.input = .ok bytes) (hm : Utf8.decode bytes = .error m) :
    (once s c files).ending = .exit 2 := by
  rw [once_of_error (process_of_malformed hread hm) rfl, ProcessError.exitCode]

theorem ending_of_fault {fault : Fault} (hinput : files.Holds s.input text)
    (hfault : tokenize text.unifyLineEnds = .error fault) :
    (once s c files).ending = .exit 1 := by
  rw [once_of_error (process_of_fault hinput hfault) rfl, ProcessError.exitCode]

theorem exists_processed (c : Layout.Config) (hinput : files.Holds s.input text)
    (htokens : tokenize text.unifyLineEnds = .ok tokens) : ∃ p, process s c files = .ok p :=
  ⟨_, process_of_tokenize hinput htokens (Layout.resolveText_of_tokenize c htokens)⟩

theorem ending_of_success (hinput : files.Holds s.input text)
    (htokens : tokenize text.unifyLineEnds = .ok tokens)
    (hs : ∀ path, s.output = some path → files.Writable path) :
    (once s c files).ending = .exit 0 := by
  obtain ⟨p, hprocess⟩ := exists_processed c hinput htokens
  cases houtput : s.output with
  | none => rw [once_of_delivered hprocess (deliver_of_none houtput _)]
  | some path =>
    obtain ⟨g, hwrite⟩ := Files.write_of_writable (hs path houtput) (Utf8.encode p.output)
    have hdeliver : deliver s files p.output = .ok ⟨"", g⟩ := by
      rw [deliver_of_some houtput, hwrite, Except.map]
    rw [once_of_delivered hprocess hdeliver]

theorem ending_of_unwritten {path : Path} (hinput : files.Holds s.input text)
    (htokens : tokenize text.unifyLineEnds = .ok tokens) (hs : s.output = some path)
    (he : ∀ content, files.write path content = .error e) :
    (once s c files).ending = .breakdown (.file e) := by
  obtain ⟨p, hprocess⟩ := exists_processed c hinput htokens
  have hdeliver : deliver s files p.output = .error e := by
    rw [deliver_of_some hs, he, Except.map]
  rw [once_of_undelivered hprocess hdeliver]

theorem once_ends (h : Resolves limits a files s c) :
    Ends limits a files (once s c files).ending := by
  obtain ⟨text, tokens, p, hinput, htokens, -⟩ | ⟨text, fault, hinput, hfault, -⟩ |
    ⟨bytes, m, hread, hm, -⟩ | ⟨e, he, -⟩ := process_cases s c files
  · by_cases hs : ∀ path, s.output = some path → files.Writable path
    · rw [ending_of_success hinput htokens hs]
      exact .success h hinput htokens hs
    · obtain ⟨path, hpath⟩ := not_forall.mp hs
      obtain ⟨hpath, hwritable⟩ := Classical.not_imp.mp hpath
      cases hwrite : files.write path [] with
      | ok g => exact absurd (Files.writable_of_write hwrite) hwritable
      | error e =>
        have he := Files.write_error hwrite
        rw [ending_of_unwritten hinput htokens hpath he]
        exact .escape (.output h hinput htokens hpath he)
  · rw [ending_of_fault hinput hfault]
    exact .fault h hinput hfault
  · rw [ending_of_malformed hread hm]
    exact .undecodable h hread hm
  · by_cases hnull : s.input.HasNull
    · rw [ending_of_null he hnull]
      exact .escape (.input h he hnull)
    · rw [ending_of_unread he hnull]
      exact .unread h he hnull

end Once

section Execute

theorem ending_of_ends {ending : Ending} (h : Arguments.parse words = .ok a)
    (hwatch : a.watch = false) (hends : Ends limits a files ending) :
    ∃ r, execute limits words files = some r ∧ r.ending = ending := by
  have refused {failure : Settings.Failure} {ending : Ending}
      (hrefused : Refused limits a files failure) (he : (refuse files failure).ending = ending) :
      ∃ r, execute limits words files = some r ∧ r.ending = ending :=
    ⟨_, execute_of_refused h hrefused, he⟩
  have resolved {s : Settings} {c : Layout.Config} {ending : Ending}
      (hr : Resolves limits a files s c) (he : (once s c files).ending = ending) :
      ∃ r, execute limits words files = some r ∧ r.ending = ending :=
    ⟨_, execute_of_resolves h hwatch hr, he⟩
  cases hends with
  | success hr hinput htokens hs => exact resolved hr (ending_of_success hinput htokens hs)
  | fault hr hinput hfault => exact resolved hr (ending_of_fault hinput hfault)
  | config hrefused => exact refused hrefused rfl
  | unread hr he hnull => exact resolved hr (ending_of_unread he hnull)
  | undecodable hr hread hm => exact resolved hr (ending_of_malformed hread hm)
  | escape hescape =>
    cases hescape with
    | configPath hfind hlong =>
      exact refused (refused_of_load (load_of_isFile_error
        (Files.isFile_eq_error_iff.mpr ⟨hfind, hlong⟩))) rfl
    | configBytes hread hm => exact refused (refused_of_load (load_of_malformed hread hm)) rfl
    | configDigits hholds hcount =>
      exact refused (refused_of_load (load_of_refused hholds hcount)) rfl
    | configDepth hholds hdeep =>
      exact refused (refused_of_load (load_of_refused hholds hdeep)) rfl
    | configFormat hload hv hu =>
      have hresolve := Settings.resolve_eq_error_iff.mpr (.inr ⟨_, hload, ofTable_of_unshown hv hu⟩)
      exact refused (.inl hresolve) rfl
    | keyword hresolve hlayout => exact refused (.inr ⟨_, hresolve, hlayout⟩) rfl
    | input hr he hnull => exact resolved hr (ending_of_null he hnull)
    | output hr hinput htokens hs he => exact resolved hr (ending_of_unwritten hinput htokens hs he)

theorem ends_of_refused {failure : Settings.Failure} (h : Refused limits a files failure) :
    Ends limits a files (refuse files failure).ending := by
  cases failure with
  | config e => exact .config h
  | breakdown b => exact .escape (escapes_of_refused h)

theorem Ends.answers {ending : Ending} (h : Ends limits a files ending) :
    (∃ code ≤ 2, ending = .exit code) ∨ ∃ b, ending = .breakdown b ∧ Escapes limits a files b := by
  cases h with
  | success => exact .inl ⟨0, by decide, rfl⟩
  | fault => exact .inl ⟨1, by decide, rfl⟩
  | config => exact .inl ⟨2, by decide, rfl⟩
  | unread => exact .inl ⟨2, by decide, rfl⟩
  | undecodable => exact .inl ⟨2, by decide, rfl⟩
  | escape h => exact .inr ⟨_, rfl, h⟩

/-- A run ends in one of the ways that are listed, and in that one only: with an exit code up to
two, or broken off. The exit code is one just if there are settings and the input is a text that
cannot be read as tokens. -/
theorem execute_ends (limits : Toml.Limits) (h : Arguments.parse words = .ok a)
    (hwatch : a.watch = false) (files : Files) :
    ∃ r, execute limits words files = some r ∧
      (∀ ending, r.ending = ending ↔ Ends limits a files ending) ∧
      ((∃ code ≤ 2, r.ending = .exit code) ∨
        ∃ b, r.ending = .breakdown b ∧ Escapes limits a files b) ∧
      (r.ending = .exit 1 ↔ ∃ s c text fault, Resolves limits a files s c ∧
        files.Holds s.input text ∧ tokenize text.unifyLineEnds = .error fault) := by
  obtain ⟨r, hrun, hends⟩ :
      ∃ r, execute limits words files = some r ∧ Ends limits a files r.ending := by
    obtain ⟨failure, hrefused⟩ | ⟨s, c, hresolves⟩ := refused_or_resolves limits a files
    · exact ⟨_, execute_of_refused h hrefused, ends_of_refused hrefused⟩
    · exact ⟨_, execute_of_resolves h hwatch hresolves, once_ends hresolves⟩
  have hiff (ending : Ending) : r.ending = ending ↔ Ends limits a files ending := by
    constructor
    · rintro rfl
      exact hends
    · intro hother
      obtain ⟨r', hrun', rfl⟩ := ending_of_ends h hwatch hother
      rw [hrun, Option.some.injEq] at hrun'
      rw [hrun']
  refine ⟨r, hrun, hiff, hends.answers, (hiff _).trans ⟨fun hone => ?_, ?_⟩⟩
  · cases hone with
    | fault hr hinput hfault => exact ⟨_, _, _, _, hr, hinput, hfault⟩
  · rintro ⟨s, c, text, fault, hr, hinput, hfault⟩
    exact .fault hr hinput hfault

/-- A command line that names an output file in a directory that is not there. -/
def astray : List String :=
  ["a.hs", "-o", "no/x"]

theorem ending_astray : (execute .usual astray (singleFile "a.hs" "x")).map (·.ending) =
    some (.breakdown (.file ⟨.missing, .ofString "no/x"⟩)) := by
  decide +kernel

theorem execute_ends_astray :
    ∃ a e, Arguments.parse astray = .ok a ∧
      Escapes .usual a (singleFile "a.hs" "x") (.file e) := by
  have hparse : Arguments.parse astray =
      .ok ⟨"a.hs", some "no/x", none, [], false, none, false, false, false⟩ := by decide +kernel
  obtain ⟨r, hrun, -, hends, -⟩ := execute_ends .usual hparse rfl (singleFile "a.hs" "x")
  have hending := ending_astray
  rw [hrun, Option.map_some, Option.some.injEq] at hending
  rw [hending] at hends
  obtain ⟨code, -, hcode⟩ | ⟨b, hb, hescapes⟩ := hends
  · cases hcode
  · cases hb
    exact ⟨_, _, hparse, hescapes⟩

/-- A run that processes a text may still break off, when the text is delivered. -/
theorem not_execute_answers :
    ¬ ∀ limits words a files, Arguments.parse words = .ok a → a.watch = false →
      ∃ r code, execute limits words files = some r ∧ r.ending = .exit code ∧ code ≤ 2 := by
  intro h
  obtain ⟨r, code, hrun, hcode, -⟩ := h .usual astray
    ⟨"a.hs", some "no/x", none, [], false, none, false, false, false⟩ (singleFile "a.hs" "x")
    (by decide +kernel) rfl
  have hending := ending_astray
  rw [hrun, Option.map_some, Option.some.injEq, hcode] at hending
  cases hending

end Execute

end Program

end OffsideRule
