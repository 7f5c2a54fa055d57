import OffsideRule.Proofs.Lexemes
import OffsideRule.Token

/-! Reading a text token by token. `Reads` leads from one cursor to another over the tokens that are
taken on the way. A pass reads on to a cursor at which it halts: the end of the text, or a place
where no lexeme stands. What was read of a text is all that its tokens depend on: they are read
again if the text ends behind them, and, but for their positions, if the text begins with them. -/

namespace OffsideRule

namespace Lexeme.Heads

theorem ne_nil {s : Text} {lx : Lexeme} (h : Heads s lx) : s ≠ [] := by
  rintro rfl
  cases h with
  | lineComment hline => simp [startsLineComment, runLength] at hline

theorem length_pos {s : Text} {lx : Lexeme} (h : Heads s lx) : 0 < lx.length := by
  cases s with
  | nil => exact absurd rfl h.ne_nil
  | cons c rest => exact read_pos (read_of_heads h)

end Lexeme.Heads

/-- The token that a lexeme makes at a cursor. -/
def Cursor.token (c : Cursor) (lx : Lexeme) : Token :=
  ⟨lx.kind, c.rest.take lx.length, c.position, (c.move lx.length).position⟩

/-- The cursor in the text that is cut off behind `n` more characters. -/
def Cursor.cut (c : Cursor) (n : Nat) : Cursor :=
  ⟨c.position, c.rest.take n⟩

namespace Cursor

theorem length_token {c : Cursor} {lx : Lexeme} (h : Lexeme.Heads c.rest lx) :
    (c.token lx).text.length = lx.length :=
  List.length_take_of_le h.length_le

/-- An end of line is read as a line feed, with a carriage return before it or without. -/
theorem token_newline {c : Cursor} {lx : Lexeme} (h : Lexeme.Heads c.rest lx)
    (hkind : lx.kind = .newline) :
    (c.token lx).text = ['\n'] ∨ (c.token lx).text = ['\r', '\n'] := by
  rcases h.of_newline hkind with ⟨rest, hrest, hlength⟩ | ⟨rest, hrest, hlength⟩
  · left
    rw [token, hrest, hlength]
    rfl
  · right
    rw [token, hrest, hlength]
    rfl

theorem take_cut (c : Cursor) {k n : Nat} (h : k ≤ n) :
    (c.cut n).rest.take k = c.rest.take k := by
  rw [cut, List.take_take, Nat.min_eq_left h]

theorem token_cut (c : Cursor) {lx : Lexeme} {n : Nat} (h : lx.length ≤ n) :
    (c.cut n).token lx = c.token lx := by
  rw [token, move, take_cut c h]
  rfl

theorem move_cut (c : Cursor) (k n : Nat) : (c.cut (k + n)).move k = (c.move k).cut n := by
  rw [move, take_cut c (Nat.le_add_right k n), cut, List.drop_take, Nat.add_sub_cancel_left]
  rfl

end Cursor

/-- The empty token at the end of a text. -/
def Token.ending (p : Position) : Token :=
  ⟨.endOfInput, [], p, p⟩

/-- Kind and text of a token, without its place. -/
def Token.content (t : Token) : Kind × Text :=
  (t.kind, t.text)

inductive Reads : Cursor → List Token → Cursor → Prop
  | refl (c : Cursor) : Reads c [] c
  | step {c c' : Cursor} {lx : Lexeme} {more : List Token} : Lexeme.Heads c.rest lx →
      Reads (c.move lx.length) more c' → Reads c (c.token lx :: more) c'

/-- Reading does not go on: the text is at its end, or no lexeme stands at its front. -/
def Cursor.Halts (c : Cursor) : Prop :=
  c.rest = [] ∨ ∃ o, Lexeme.read c.rest = .error o

namespace Pass

variable {c c' : Cursor}

theorem run_of_nil (h : c.rest = []) : run c = ⟨[.ending c.position], c, none⟩ := by
  obtain ⟨p, rest⟩ := c
  cases h
  rw [run]
  rfl

theorem run_of_error {o : Obstacle} (h : Lexeme.read c.rest = .error o) :
    run c = ⟨[], c.move o.length, some (o.problem, c.position)⟩ := by
  obtain ⟨p, rest⟩ := c
  cases rest with
  | nil => contradiction
  | cons x more =>
    unfold run
    split
    · next o' ho =>
      cases h.symm.trans ho
      rfl
    · next lx hlx => cases h.symm.trans hlx

theorem run_of_heads {lx : Lexeme} (h : Lexeme.Heads c.rest lx) :
    run c = cons (c.token lx) (run (c.move lx.length)) := by
  have hread := Lexeme.read_of_heads h
  obtain ⟨p, rest⟩ := c
  cases rest with
  | nil => exact absurd rfl h.ne_nil
  | cons x more =>
    rw [run]
    split
    · next o ho => cases hread.symm.trans ho
    · next lx' hlx =>
      cases hread.symm.trans hlx
      rfl

/-- Where reading halts, a pass has no token but the one at the end of the text. -/
theorem eq_ending_of_halts {t : Token} (h : c.Halts) (ht : t ∈ (run c).tokens) :
    t = .ending c.position := by
  rcases h with hend | ⟨o, herror⟩
  · rw [run_of_nil hend] at ht
    exact List.mem_singleton.mp ht
  · rw [run_of_error herror] at ht
    contradiction

/-- A pass begins with what is read. -/
theorem run_of_reads {tokens : List Token} (h : Reads c tokens c') :
    run c = { run c' with tokens := tokens ++ (run c').tokens } := by
  induction h with
  | refl c => rfl
  | step hheads _ ih => rw [run_of_heads hheads, ih, cons, List.cons_append]

end Pass

/-- Reading halts. -/
theorem exists_reads (c : Cursor) : ∃ tokens c', Reads c tokens c' ∧ c'.Halts := by
  fun_induction Pass.run c with
  | case1 p => exact ⟨[], _, .refl _, Or.inl rfl⟩
  | case2 p x rest o ho => exact ⟨[], _, .refl _, Or.inr ⟨o, ho⟩⟩
  | case3 p x rest lx hlx behind ih =>
    obtain ⟨tokens, c', hreads, hhalts⟩ := ih
    exact ⟨_, c', .step (c := ⟨p, x :: rest⟩) (Lexeme.heads_of_read hlx) hreads, hhalts⟩

namespace Reads

variable {c c' : Cursor} {tokens front back : List Token}

theorem append {m : Cursor} (h : Reads c front m) (h' : Reads m back c') :
    Reads c (front ++ back) c' := by
  induction h with
  | refl c => exact h'
  | step hheads _ ih => exact .step hheads (ih h')

theorem split (h : Reads c (front ++ back) c') : ∃ m, Reads c front m ∧ Reads m back c' := by
  induction front generalizing c with
  | nil => exact ⟨c, .refl c, h⟩
  | cons t more ih =>
    cases h with
    | step hheads hmore =>
      obtain ⟨m, hfront, hback⟩ := ih hmore
      exact ⟨m, .step hheads hfront, hback⟩

/-- The text that is read is that of the tokens. -/
theorem rest_eq (h : Reads c tokens c') : c.rest = tokens.flatMap Token.text ++ c'.rest := by
  induction h with
  | refl c => rfl
  | @step c c' lx more hheads _ ih =>
    rw [List.flatMap_cons, List.append_assoc, ← ih]
    exact (List.take_append_drop lx.length c.rest).symm

theorem position_eq (h : Reads c tokens c') :
    c'.position = c.position.advance (tokens.flatMap Token.text) := by
  induction h with
  | refl c => rfl
  | step _ _ ih =>
    rw [List.flatMap_cons, Position.advance_append, ih]
    rfl

/-- Each token takes at least one character. -/
theorem length_le (h : Reads c tokens c') :
    tokens.length + c'.rest.length ≤ c.rest.length := by
  induction h with
  | refl c => simp
  | @step c c' lx more hheads _ ih =>
    have hpos := hheads.length_pos
    have hle := hheads.length_le
    simp only [Cursor.move, List.length_drop] at ih
    rw [List.length_cons]
    omega

theorem proper (h : Reads c tokens c') :
    ∀ t ∈ tokens, t.text ≠ [] ∧ t.kind ≠ .endOfInput := by
  induction h with
  | refl c => simp
  | @step c c' lx more hheads _ ih =>
    intro t ht
    rcases List.mem_cons.mp ht with rfl | ht
    · refine ⟨fun hnil => ?_, hheads.kind_ne_endOfInput⟩
      have hpos := hheads.length_pos
      rcases List.take_eq_nil_iff.mp hnil with hzero | hrest
      · omega
      · exact hheads.ne_nil hrest
    · exact ih t ht

/-- What is read does not part a line end: this is one token. -/
theorem not_partsLineEnd (h : Reads c tokens c') :
    ¬ PartsLineEnd c.rest (tokens.flatMap Token.text).length := by
  rintro ⟨hone, more, hrest⟩
  cases h with
  | refl c => contradiction
  | @step c c' lx more' hheads _ =>
    obtain ⟨p, rest⟩ := c
    simp only at hrest
    subst hrest
    have hlx : lx = ⟨.newline, 2⟩ := by
      have := Lexeme.read_of_heads hheads
      cases this
      rfl
    subst hlx
    simp [Cursor.token] at hone

/-- Tokens are read again if the text ends behind them. -/
theorem cut (h : Reads c tokens c') :
    Reads (c.cut (tokens.flatMap Token.text).length) tokens ⟨c'.position, []⟩ := by
  induction h with
  | refl c => exact .refl _
  | @step c c' lx more hheads hmore ih =>
    have hlength : ((c.token lx :: more).flatMap Token.text).length =
        lx.length + (more.flatMap Token.text).length := by
      rw [List.flatMap_cons, List.length_append, Cursor.length_token hheads]
    have hle : lx.length ≤ lx.length + (more.flatMap Token.text).length := Nat.le_add_right _ _
    have hcut : Lexeme.Heads (c.cut (lx.length + (more.flatMap Token.text).length)).rest lx := by
      apply hheads.take hle
      rw [Nat.add_sub_cancel_left]
      exact hmore.not_partsLineEnd
    rw [hlength, ← Cursor.token_cut c hle]
    refine .step hcut ?_
    rw [Cursor.move_cut]
    exact ih

/-- But for their positions, tokens are read again if the text begins with them. -/
theorem relocate (h : Reads c tokens c') (p : Position) :
    ∃ moved q, Reads ⟨p, c.rest⟩ moved ⟨q, c'.rest⟩ ∧
      moved.map Token.content = tokens.map Token.content := by
  induction h generalizing p with
  | refl c => exact ⟨[], p, .refl _, rfl⟩
  | @step c c' lx more hheads _ ih =>
    obtain ⟨moved, q, hreads, hcontent⟩ := ih (p.advance (c.rest.take lx.length))
    refine ⟨_, q, .step (c := ⟨p, c.rest⟩) hheads hreads, ?_⟩
    rw [List.map_cons, List.map_cons, hcontent]
    rfl

end Reads

section Source

variable {source : Text} {tokens : List Token} {c : Cursor}

theorem tokenize_of_problem (h : (Pass.run (.start source)).problem = none) :
    tokenize source = .ok (Pass.run (.start source)).tokens := by
  simp only [tokenize, h]

/-- A source that is read to its end has the tokens read and the one at its end. -/
theorem tokenize_of_nil (h : Reads (.start source) tokens c) (hend : c.rest = []) :
    tokenize source = .ok (tokens ++ [.ending c.position]) := by
  have hrun := Pass.run_of_reads h
  rw [Pass.run_of_nil hend] at hrun
  simp only [tokenize, hrun]

/-- A source that no lexeme leads through has a fault at the cursor where reading halts. -/
theorem tokenize_of_error {o : Obstacle} (h : Reads (.start source) tokens c)
    (herror : Lexeme.read c.rest = .error o) :
    tokenize source = .error ⟨o.problem, c.position, source⟩ := by
  have hrun := Pass.run_of_reads h
  rw [Pass.run_of_error herror] at hrun
  simp only [tokenize, hrun]

theorem exists_reads_of_tokenize (h : tokenize source = .ok tokens) :
    ∃ front c, Reads (.start source) front c ∧ c.rest = [] ∧ tokens = front ++ [.ending c.position] := by
  obtain ⟨front, c, hreads, hend | ⟨o, herror⟩⟩ := exists_reads (.start source)
  · rw [tokenize_of_nil hreads hend, Except.ok.injEq] at h
    exact ⟨front, c, hreads, hend, h.symm⟩
  · rw [tokenize_of_error hreads herror] at h
    contradiction

theorem exists_reads_of_fault {f : Fault} (h : tokenize source = .error f) :
    ∃ front c o, Reads (.start source) front c ∧ Lexeme.read c.rest = .error o ∧
      f = ⟨o.problem, c.position, source⟩ := by
  obtain ⟨front, c, hreads, hend | ⟨o, herror⟩⟩ := exists_reads (.start source)
  · rw [tokenize_of_nil hreads hend] at h
    contradiction
  · rw [tokenize_of_error hreads herror, Except.error.injEq] at h
    exact ⟨front, c, o, hreads, herror, h.symm⟩

end Source

end OffsideRule
