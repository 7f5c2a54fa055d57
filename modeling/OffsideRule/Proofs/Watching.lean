import OffsideRule.Proofs.Outcomes

/-! A watch looks at its input again and again, and processes it when it was changed since. Over
whatever states of the files it finds, each look does what a single run would do there. -/

namespace OffsideRule.Program

variable {s : Settings} {c : Layout.Config} {w : Watch} {files : Files} {last : Int}

/-- The input is there, and was changed at another time than `last`. -/
def Due (input : Path) (last : Int) (files : Files) : Prop :=
  ∃ time, files.modified input = .ok time ∧ time ≠ last

/-- The time of the last change that was processed after a look at the files. -/
def marked (input : Path) (last : Int) (files : Files) : Int :=
  match files.modified input with
  | .ok time => time
  | .error _ => last

/-- The time of the last change that was processed after looks at all these states of the files,
when it was `last` before them. A watch begins with zero. -/
def lastProcessed (input : Path) (last : Int) (found : List Files) : Int :=
  found.foldl (marked input) last

/-- What a watch says about an ending where a single run says nothing. -/
def remark (input : Path) : Ending → String
  | .exit 0 => "Processed " ++ input.toString ++ "\n"
  | .breakdown b => "error: " ++ b.message ++ "\n"
  | _ => ""

/-- What a watch shows of a run. -/
def Run.shown (r : Run) (input : Path) : Poll :=
  ⟨r.stdout, r.stderr ++ remark input r.ending⟩

/-- A look at the input: the files it found, what it showed, and the files it left. -/
structure Look where
  found : Files
  poll : Poll
  left : Files

/-- The looks of a watch at the states of the files that it finds, and the error that breaks it
off, if one does. Between the looks anything may happen to the files. -/
def Watch.looks (s : Settings) (c : Layout.Config) : Int → List Files → List Look × Option FileError
  | _, [] => ([], none)
  | last, files :: more =>
    match (Watch.mk last files).poll s c with
    | .error e => ([], some e)
    | .ok (p, w) =>
      let (rest, e?) := looks s c w.last more
      (⟨files, p, w.files⟩ :: rest, e?)

/-- A look at a changed input shows what a single run does, with a remark about how it ended, and
leaves the files that it leaves; every other look shows nothing and leaves the files as they are. -/
structure Agrees (s : Settings) (c : Layout.Config) (last : Int) (l : Look) : Prop where
  due : Due s.input last l.found →
    l.poll = (once s c l.found).shown s.input ∧ l.left = (once s c l.found).files
  idle : ¬ Due s.input last l.found → l.poll = ⟨"", ""⟩ ∧ l.left = l.found

/-- A watch breaks off over an error that comes from the path of the input or of the output alone,
and not over an error of the file system. Where processing raises it, a single run breaks off with it
as well. -/
structure Breaks (s : Settings) (c : Layout.Config) (last : Int) (files : Files) (e : FileError) :
    Prop where
  fatal : e.isFatal = true
  path : e.path = s.input ∨ s.output = some e.path
  ending : files.modified s.input = .error e ∨
    Due s.input last files ∧ (once s c files).ending = .breakdown (.file e)

section Poll

variable {e : FileError} {p : Processed} {time : Int}

theorem fatal?_of_process {e : ProcessError} (h : process s c files = .error e)
    (hnull : ¬ s.input.HasNull) : e.fatal? = none := by
  obtain ⟨_, _, _, -, -, hprocess⟩ | ⟨_, _, -, -, hprocess⟩ | ⟨_, _, -, -, hprocess⟩ |
    ⟨e', hread, hprocess⟩ := process_cases s c files <;> rw [h] at hprocess <;> cases hprocess
  · rfl
  · rfl
  · exact if_neg fun hfatal => hnull ((Files.about_of_read hread).isFatal.mp hfatal)

theorem about_of_deliver {output : String} (h : deliver s files output = .error e) :
    ∃ path, s.output = some path ∧ e.About path := by
  cases hs : s.output with
  | none => rw [deliver_of_none hs] at h; cases h
  | some path =>
    rw [deliver_of_some hs] at h
    cases hwrite : files.write path (Utf8.encode output) with
    | ok written => rw [hwrite] at h; cases h
    | error e' =>
      rw [hwrite] at h
      cases h
      exact ⟨path, rfl, Files.about_of_write hwrite⟩

theorem remark_exitCode (input : Path) (e : ProcessError) :
    remark input (.exit e.exitCode) = "" := by
  cases e <;> rfl

/-- A look at a changed input does what a single run does, and remembers the time of the change;
or it breaks off. -/
theorem poll_of_due (h : w.files.modified s.input = .ok time) (htime : time ≠ w.last) :
    (∃ e, w.poll s c = .error e ∧ Breaks s c w.last w.files e) ∨
      w.poll s c =
        .ok ((once s c w.files).shown s.input, ⟨time, (once s c w.files).files⟩) := by
  cases hprocess : process s c w.files with
  | error e =>
    right
    have hfatal := fatal?_of_process hprocess (Files.not_hasNull_of_modified h)
    rw [once_of_error hprocess hfatal, Run.shown, remark_exitCode, String.append_empty]
    delta Watch.poll
    simp only [h, htime, if_false, hprocess]
  | ok p =>
    cases hdeliver : deliver s w.files p.output with
    | ok d =>
      right
      rw [once_of_delivered hprocess hdeliver]
      delta Watch.poll
      simp only [h, htime, if_false, hprocess, hdeliver, Run.shown, remark, String.append_assoc]
    | error e =>
      have honce := once_of_undelivered hprocess hdeliver
      by_cases hfatal : e.isFatal = true
      · left
        obtain ⟨path, hpath, habout⟩ := about_of_deliver hdeliver
        have hpoll : w.poll s c = .error e := by
          delta Watch.poll
          simp only [h, htime, if_false, hprocess, hdeliver, hfatal, if_true]
        refine ⟨e, hpoll, hfatal, .inr ?_, .inr ⟨⟨time, h, htime⟩, by rw [honce]⟩⟩
        rw [habout.path, hpath]
      · right
        rw [honce]
        delta Watch.poll
        simp only [h, htime, if_false, hprocess, hdeliver, hfatal, Run.shown, remark,
          Breakdown.message, String.append_assoc]
        rfl

theorem marked_of_not_due (h : ¬ Due s.input last files) : marked s.input last files = last := by
  rw [marked]
  cases hmodified : files.modified s.input with
  | error e => rfl
  | ok time => exact not_not.mp fun htime => h ⟨time, hmodified, htime⟩

theorem poll_of_not_due (h : ¬ Due s.input w.last w.files) :
    (∃ e, w.poll s c = .error e ∧ Breaks s c w.last w.files e) ∨
      w.poll s c = .ok (⟨"", ""⟩, w) := by
  cases hmodified : w.files.modified s.input with
  | error e =>
    by_cases hfatal : e.isFatal = true
    · have hpoll : w.poll s c = .error e := by
        delta Watch.poll
        simp only [hmodified, hfatal, if_true]
      exact .inl ⟨e, hpoll, hfatal, .inl (Files.about_of_modified hmodified).path, .inl hmodified⟩
    · right
      delta Watch.poll
      simp only [hmodified, hfatal]
      rfl
  | ok time =>
    have htime : time = w.last := not_not.mp fun htime => h ⟨time, hmodified, htime⟩
    right
    delta Watch.poll
    simp only [hmodified, htime, if_true]

/-- What one look does. -/
theorem poll_spec (s : Settings) (c : Layout.Config) (w : Watch) :
    (∃ e, w.poll s c = .error e ∧ Breaks s c w.last w.files e) ∨
      ∃ p w', w.poll s c = .ok (p, w') ∧ w'.last = marked s.input w.last w.files ∧
        Agrees s c w.last ⟨w.files, p, w'.files⟩ := by
  by_cases hdue : Due s.input w.last w.files
  · obtain ⟨time, hmodified, htime⟩ := id hdue
    obtain hbreaks | hpoll := poll_of_due hmodified htime
    · exact .inl hbreaks
    · rw [marked, hmodified]
      exact .inr ⟨_, _, hpoll, rfl, fun _ => ⟨rfl, rfl⟩, fun hidle => absurd hdue hidle⟩
  · obtain hbreaks | hpoll := poll_of_not_due hdue
    · exact .inl hbreaks
    · exact .inr ⟨_, w, hpoll, (marked_of_not_due hdue).symm, fun h => absurd h hdue,
        fun _ => ⟨rfl, rfl⟩⟩

end Poll

section Looks

seal Watch.poll

/-- A watch, over any states of the files: it looks at all of them unless it breaks off, each look
agrees with a single run in the state that it finds, and no error of the file system breaks it off. -/
theorem looks_agree (s : Settings) (c : Layout.Config) (last : Int) (seen : List Files) :
    (∀ before l after, (Watch.looks s c last seen).1 = before ++ l :: after →
      Agrees s c (lastProcessed s.input last (before.map (·.found))) l) ∧
    ((Watch.looks s c last seen).2 = none ∧ (Watch.looks s c last seen).1.map (·.found) = seen ∨
      ∃ e files more, (Watch.looks s c last seen).2 = some e ∧
        seen = (Watch.looks s c last seen).1.map (·.found) ++ files :: more ∧
        Breaks s c (lastProcessed s.input last ((Watch.looks s c last seen).1.map (·.found)))
          files e) := by
  induction seen generalizing last with
  | nil => exact ⟨by simp [Watch.looks], .inl ⟨rfl, rfl⟩⟩
  | cons files more ih =>
    obtain ⟨e, hpoll, hbreaks⟩ | ⟨p, w', hpoll, hlast, hagrees⟩ := poll_spec s c ⟨last, files⟩
    · have hlooks : Watch.looks s c last (files :: more) = ([], some e) := by
        simp only [Watch.looks, hpoll]
      rw [hlooks]
      exact ⟨by simp, .inr ⟨e, files, more, rfl, rfl, hbreaks⟩⟩
    · have hlooks : Watch.looks s c last (files :: more) =
          (⟨files, p, w'.files⟩ :: (Watch.looks s c w'.last more).1,
            (Watch.looks s c w'.last more).2) := by
        simp only [Watch.looks, hpoll]
      have hnext (found : List Files) :
          lastProcessed s.input last (files :: found) = lastProcessed s.input w'.last found := by
        rw [hlast]
        rfl
      obtain ⟨hall, hend⟩ := ih w'.last
      rw [hlooks]
      refine ⟨?_, ?_⟩
      · intro before l after hsplit
        cases before with
        | nil =>
          obtain ⟨rfl, -⟩ := List.cons.inj hsplit
          exact hagrees
        | cons first before =>
          obtain ⟨rfl, hrest⟩ := List.cons.inj hsplit
          rw [List.map_cons, hnext]
          exact hall before l after hrest
      · obtain ⟨hnone, hfound⟩ | ⟨e, there, rest, he, hmore, hbreaks⟩ := hend
        · exact .inl ⟨hnone, by rw [List.map_cons, hfound]⟩
        · refine .inr ⟨e, there, rest, he, ?_, ?_⟩
          · rw [List.map_cons, List.cons_append, ← hmore]
          · rw [List.map_cons, hnext]
            exact hbreaks

/-- Settings whose output file has a null character in its name. -/
def nullOutput : Settings :=
  ⟨.ofString "a.hs", some (.ofString "o\x00"), some .tokens, none, true, true, false, false⟩

theorem poll_nullOutput :
    Watch.poll ⟨0, ⟨[(.ofString "a.hs", .file (Utf8.encode "x") 10)]⟩⟩ nullOutput .haskell =
      .error ⟨.nullCharacter, .ofString "o\x00"⟩ := by
  decide +kernel

/-- A look at a changed input may break off the watch where the output cannot be written. -/
theorem not_poll_agrees :
    ¬ ∀ s c last files, ∃ p w, (Watch.mk last files).poll s c = .ok (p, w) ∧
      Agrees s c last ⟨files, p, w.files⟩ := by
  intro h
  obtain ⟨p, w, hpoll, -⟩ := h nullOutput .haskell 0
    ⟨[(.ofString "a.hs", .file (Utf8.encode "x") 10)]⟩
  rw [poll_nullOutput] at hpoll
  cases hpoll

/-- The states of the files that a watch finds when edits happen between its looks. -/
def Watch.seen (s : Settings) (c : Layout.Config) : Watch → List Files.Edit → List Files
  | w, [] => [w.files]
  | w, e :: more =>
    match w.poll s c with
    | .error _ => [w.files]
    | .ok (_, w') => w.files :: seen s c { w' with files := w'.files.edit e } more

/-- A watch with edits between its polls shows what it shows over the states that it finds. -/
theorem polls_eq_looks (s : Settings) (c : Layout.Config) (w : Watch) (edits : List Files.Edit) :
    (Watch.polls s c w edits).polls =
        (Watch.looks s c w.last (w.seen s c edits)).1.map (·.poll) ∧
      (Watch.polls s c w edits).ending =
        (Watch.looks s c w.last (w.seen s c edits)).2.elim (.exit 0) fun e =>
          .breakdown (.file e) := by
  induction edits generalizing w with
  | nil =>
    cases hpoll : w.poll s c with
    | error e => simp [Watch.polls, Watch.seen, Watch.looks, hpoll]
    | ok pw => simp [Watch.polls, Watch.seen, Watch.looks, hpoll]
  | cons e more ih =>
    cases hpoll : w.poll s c with
    | error e => simp [Watch.polls, Watch.seen, Watch.looks, hpoll]
    | ok pw =>
      obtain ⟨p, w'⟩ := pw
      obtain ⟨hpolls, hending⟩ := ih { w' with files := w'.files.edit e }
      simp only [Watch.polls, Watch.seen, Watch.looks, hpoll, List.map_cons]
      exact ⟨by rw [hpolls], hending⟩

end Looks

end OffsideRule.Program
