import OffsideRule.Proofs.Lossless

/-! A text splits where its tokens begin. What stands before such a place is read alone as it is
read in the whole text, and what stands behind it is read, or fails, as the rest of the whole. So a
fault lies where the first token begins that cannot be read, and each token is read from its text. -/

namespace OffsideRule

/-- The offset of a token of the source, or of the fault that ends its reading. -/
def Boundary (source : Text) (p : Nat) : Prop :=
  (∃ t ∈ (Pass.run (.start source)).tokens, t.start.offset = p) ∨
    ∃ problem position, (Pass.run (.start source)).problem = some (problem, position) ∧
      position.offset = p

/-- Both parts of a source are read like the source: the part before the offset `p` has the tokens
that end there at the latest, and the part behind has the others or the fault. -/
structure SplitsAt (source : Text) (p : Nat) : Prop where
  before : ∃ q, tokenize (source.take p) =
    .ok ((Pass.run (.start source)).tokens.filter
      (fun t => t.kind != .endOfInput && t.stop.offset ≤ p) ++ [.ending q])
  behind : ∀ tokens, tokenize source = .ok tokens → ∃ later, tokenize (source.drop p) = .ok later ∧
    later.map Token.content = (tokens.filter (p ≤ ·.start.offset)).map Token.content
  fault : ∀ f, tokenize source = .error f →
    ∃ f', tokenize (source.drop p) = .error f' ∧ f'.message = f.message

section

variable {source : Text} {front back : List Token} {c c' : Cursor}

/-- At a boundary reading has stopped for a moment. -/
theorem Boundary.reads {p : Nat} (h : Boundary source p) :
    ∃ front c back c', Reads (.start source) front c ∧ Reads c back c' ∧ c'.Halts ∧
      c.position.offset = p := by
  obtain ⟨tokens, c', hreads, hhalts⟩ := exists_reads (.start source)
  have hrun := Pass.run_of_reads hreads
  rw [Boundary, hrun] at h
  rcases h with ⟨t, ht, rfl⟩ | ⟨problem, position, hproblem, rfl⟩
  · rcases List.mem_append.mp ht with ht | ht
    · obtain ⟨front, back, rfl⟩ := List.append_of_mem ht
      obtain ⟨c, hfront, hback⟩ := hreads.split
      exact ⟨front, c, t :: back, c', hfront, hback, hhalts, by rw [hback.head_eq.1]⟩
    · exact ⟨tokens, c', [], c', hreads, .refl c', hhalts, by
        rw [Pass.eq_ending_of_halts hhalts ht, Token.ending]⟩
  · have hposition : position = c'.position := by
      rcases hhalts with hend | ⟨o, herror⟩
      · simp [Pass.run_of_nil hend] at hproblem
      · simp only [Pass.run_of_error herror, Option.some.injEq, Prod.mk.injEq] at hproblem
        exact hproblem.2.symm
    exact ⟨tokens, c', [], c', hreads, .refl c', hhalts, by rw [hposition]⟩

/-- The tokens before a place are those that end there at the latest. -/
theorem filter_before (hfront : Reads (.start source) front c) (hback : Reads c back c') :
    (front ++ back).filter
      (fun t => t.kind != .endOfInput && t.stop.offset ≤ c.position.offset) = front := by
  have hfront' : ∀ t ∈ front,
      (t.kind != .endOfInput && decide (t.stop.offset ≤ c.position.offset)) = true := by
    intro t ht
    have hkind := (hfront.proper t ht).2
    have hstop := hfront.tiles.stop_le t ht
    simp [hkind, hstop]
  have hback' : ∀ t ∈ back,
      ¬ (t.kind != .endOfInput && decide (t.stop.offset ≤ c.position.offset)) = true := by
    intro t ht
    have hstart := hback.tiles.offset_le t ht
    have hstop := hback.tiles.start_lt_stop t ht
    simp only [Bool.and_eq_true, decide_eq_true_eq, not_and]
    omega
  rw [List.filter_append, List.filter_eq_self.mpr hfront', List.filter_eq_nil_iff.mpr hback',
    List.append_nil]

/-- The tokens behind a place are those that start there at the earliest. -/
theorem filter_behind (hfront : Reads (.start source) front c) (hback : Reads c back c') :
    (front ++ back ++ [Token.ending c'.position]).filter (c.position.offset ≤ ·.start.offset) =
      back ++ [Token.ending c'.position] := by
  have hfront' : ∀ t ∈ front, ¬ decide (c.position.offset ≤ t.start.offset) = true := by
    intro t ht
    have hstart := hfront.tiles.start_lt_stop t ht
    have hstop := hfront.tiles.stop_le t ht
    rw [decide_eq_true_eq]
    omega
  have hback' : ∀ t ∈ back ++ [Token.ending c'.position],
      decide (c.position.offset ≤ t.start.offset) = true := by
    intro t ht
    rw [decide_eq_true_eq]
    rcases List.mem_append.mp ht with ht | ht
    · exact hback.tiles.offset_le t ht
    · rw [List.mem_singleton.mp ht]
      exact hback.tiles.offset_mono
  rw [List.append_assoc, List.filter_append, List.filter_eq_nil_iff.mpr hfront',
    List.filter_eq_self.mpr hback', List.nil_append]

/-- Behind a place a source is read like the rest of it. -/
theorem reads_drop (hfront : Reads (.start source) front c) (hback : Reads c back c') :
    ∃ moved q, Reads (.start (source.drop c.position.offset)) moved ⟨q, c'.rest⟩ ∧
      moved.map Token.content = back.map Token.content := by
  rw [← hfront.rest_eq_drop]
  exact hback.relocate .origin

theorem splitsAt (hfront : Reads (.start source) front c) (hback : Reads c back c')
    (hhalts : c'.Halts) : SplitsAt source c.position.offset where
  before := by
    have hcut : Reads (.start (source.take c.position.offset)) front ⟨c.position, []⟩ := by
      rw [hfront.offset_eq]
      exact hfront.cut
    have hhalt : (Pass.run c').tokens.filter
        (fun t => t.kind != .endOfInput && t.stop.offset ≤ c.position.offset) = [] := by
      refine List.filter_eq_nil_iff.mpr fun t ht => ?_
      rw [Pass.eq_ending_of_halts hhalts ht]
      simp [Token.ending]
    refine ⟨c.position, ?_⟩
    rw [tokenize_of_nil hcut rfl, Pass.run_of_reads (hfront.append hback), List.filter_append, hhalt,
      filter_before hfront hback, List.append_nil]
  behind := by
    intro tokens htokens
    obtain ⟨moved, q, hmoved, hcontent⟩ := reads_drop hfront hback
    rcases hhalts with hend | ⟨o, herror⟩
    · rw [tokenize_of_nil (hfront.append hback) hend, Except.ok.injEq] at htokens
      refine ⟨_, tokenize_of_nil hmoved hend, ?_⟩
      rw [← htokens, filter_behind hfront hback, List.map_append, List.map_append, hcontent]
      rfl
    · rw [tokenize_of_error (hfront.append hback) herror] at htokens
      contradiction
  fault := by
    intro f hf
    obtain ⟨moved, q, hmoved, _⟩ := reads_drop hfront hback
    rcases hhalts with hend | ⟨o, herror⟩
    · rw [tokenize_of_nil (hfront.append hback) hend] at hf
      contradiction
    · rw [tokenize_of_error (hfront.append hback) herror, Except.error.injEq] at hf
      subst hf
      exact ⟨_, tokenize_of_error hmoved herror, rfl⟩

/-- A token is read from its text alone. -/
theorem tokenize_text {t : Token} (h : Reads c (t :: back) c') :
    ∃ q, tokenize t.text = .ok [⟨t.kind, t.text, .origin, q⟩, .ending q] := by
  obtain ⟨m, ht, _⟩ := Reads.split (List.singleton_append ▸ h : Reads c ([t] ++ back) c')
  obtain ⟨moved, q, hmoved, hcontent⟩ := ht.cut.relocate .origin
  have hrest : (c.cut ([t].flatMap Token.text).length).rest = t.text := by
    rw [ht.cut.rest_eq, List.flatMap_singleton, List.append_nil]
  rw [hrest] at hmoved
  obtain ⟨u, rfl, hu⟩ := List.map_eq_singleton_iff.mp hcontent
  obtain ⟨hkind, htext⟩ : u.kind = t.kind ∧ u.text = t.text := Prod.mk.inj hu
  obtain ⟨hstart, hstop, _⟩ := hmoved.head_eq
  have hq : q = u.stop := by
    rw [hstop]
    simpa using hmoved.position_eq
  have htoken : u = ⟨t.kind, t.text, .origin, q⟩ := by
    rw [← hkind, ← htext, hq]
    exact congrArg (Token.mk u.kind u.text · u.stop) hstart
  refine ⟨q, ?_⟩
  rw [← htoken]
  exact tokenize_of_nil hmoved rfl

end

/-- At each boundary a source splits into parts that are read like the source. So where a source has
a fault, what stands before lexes alone and no lexeme stands there; and each token of the source is
the one token that its text is read as. -/
theorem tokenize_splits (source : Text) :
    (∀ p, Boundary source p → SplitsAt source p) ∧
    (∀ f, tokenize source = .error f →
      (∃ tokens, tokenize (source.take f.position.offset) = .ok tokens) ∧
      ∃ o, Lexeme.read (source.drop f.position.offset) = .error o ∧ o.problem = f.problem) ∧
    ∀ t ∈ (Pass.run (.start source)).tokens, t.kind ≠ .endOfInput →
      ∃ q, tokenize t.text = .ok [⟨t.kind, t.text, .origin, q⟩, .ending q] := by
  refine ⟨fun p hp => ?_, fun f hf => ?_, fun t ht hkind => ?_⟩
  · obtain ⟨front, c, back, c', hfront, hback, hhalts, rfl⟩ := hp.reads
    exact splitsAt hfront hback hhalts
  · obtain ⟨tokens, c, hreads, hend | ⟨o, herror⟩⟩ := exists_reads (.start source)
    · rw [tokenize_of_nil hreads hend] at hf
      contradiction
    · rw [tokenize_of_error hreads herror, Except.error.injEq] at hf
      subst hf
      obtain ⟨q, hbefore⟩ := (splitsAt hreads (.refl c) (Or.inr ⟨o, herror⟩)).before
      refine ⟨⟨_, hbefore⟩, o, ?_, rfl⟩
      rw [← hreads.rest_eq_drop]
      exact herror
  · obtain ⟨tokens, c', hreads, hhalts⟩ := exists_reads (.start source)
    rw [Pass.run_of_reads hreads] at ht
    rcases List.mem_append.mp ht with ht | ht
    · obtain ⟨front, back, rfl⟩ := List.append_of_mem ht
      obtain ⟨c, _, hback⟩ := hreads.split
      exact tokenize_text hback
    · rw [Pass.eq_ending_of_halts hhalts ht] at hkind
      contradiction

/-- A text that is read up to the second word, which is a string without an end. -/
def openString : Text :=
  "x \"a".toList

theorem tokenize_splits_openString :
    (Boundary openString 2 ∧ SplitsAt openString 2) ∧
    (∃ f, tokenize openString = .error f ∧
      (∃ tokens, tokenize (openString.take f.position.offset) = .ok tokens) ∧
      ∃ o, Lexeme.read (openString.drop f.position.offset) = .error o ∧ o.problem = f.problem) ∧
    ∃ t ∈ (Pass.run (.start openString)).tokens, t.kind ≠ .endOfInput ∧
      ∃ q, tokenize t.text = .ok [⟨t.kind, t.text, .origin, q⟩, .ending q] := by
  obtain ⟨hsplits, hfault, htoken⟩ := tokenize_splits openString
  have hproblem : (Pass.run (.start openString)).problem = some (.openString, ⟨1, 3, 2⟩) := by
    decide +kernel
  have hboundary : Boundary openString 2 := Or.inr ⟨_, _, hproblem, rfl⟩
  have h : tokenize openString = .error ⟨.openString, ⟨1, 3, 2⟩, openString⟩ := by
    simp only [tokenize, hproblem]
  have hname : (⟨.variableId, ['x'], ⟨1, 1, 0⟩, ⟨1, 2, 1⟩⟩ : Token) ∈
      (Pass.run (.start openString)).tokens := by decide +kernel
  exact ⟨⟨hboundary, hsplits 2 hboundary⟩, ⟨_, h, hfault _ h⟩, _, hname, by decide,
    htoken _ hname (by decide)⟩

end OffsideRule
