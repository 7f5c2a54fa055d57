import OffsideRule.Proofs.Places
import OffsideRule.Proofs.Operations

/-! Layout and offsets. Of the offsets in a buffer layout uses the widths of the tokens only, and of
these only the widths of tokens that do not end a line. So it commutes with every change of offsets
that keeps those widths: the result is the same with all offsets changed. -/

namespace OffsideRule.Layout

section Moved

variable (f : Int → Int)

/-- The same with every offset changed by `f`. -/
def Raw.moved (r : Raw) : Raw :=
  { r with start := f r.start, stop := f r.stop }

def Token.moved (t : Token) : Token :=
  { t with start := f t.start, stop := f t.stop }

def Warning.moved (w : Warning) : Warning :=
  { w with start := f w.start, stop := f w.stop }

def Event.moved : Event → Event
  | opened column start => opened column (f start)
  | abandoned keyword start => abandoned keyword (f start)
  | closed column offset => closed column (f offset)
  | closedLet column => closedLet column
  | resolved taken emitted givenUp depth => resolved taken emitted givenUp depth

def Phase.moved : Phase → Phase
  | dormant => dormant
  | awaiting opener => awaiting (opener.moved f)
  | running => running

def Gap.moved (g : Gap) : Gap :=
  ⟨g.later.map (Token.moved f), g.earlier.map (Token.moved f)⟩

def State.moved (s : State) : State where
  output := s.output.map (Token.moved f)
  blocks := s.blocks
  phase := s.phase.moved f
  warnings := s.warnings.map (Warning.moved f)
  events := s.events.map (Event.moved f)

def Resolution.moved (r : Resolution) : Resolution where
  tokens := r.tokens.map (Token.moved f)
  warnings := r.warnings.map (Warning.moved f)
  events := r.events.map (Event.moved f)

def Placement.moved (p : Placement) : Placement :=
  { p with tokens := p.tokens.map (Token.moved f) }

end Moved

section

variable (f : Int → Int) (c : Config) (m : Margins) (s : State) (t : Token)

theorem before_moved (kind : Kind) (anchor : Token) :
    Token.before kind (anchor.moved f) = (Token.before kind anchor).moved f := rfl

/-- A test that does not look at offsets splits moved tokens in the same place. -/
theorem takeWhile_moved {p : Token → Bool} (hp : ∀ t, p (t.moved f) = p t) (tokens : List Token) :
    (tokens.map (Token.moved f)).takeWhile p = (tokens.takeWhile p).map (Token.moved f) := by
  rw [List.takeWhile_map]
  congr 2
  exact funext hp

theorem dropWhile_moved {p : Token → Bool} (hp : ∀ t, p (t.moved f) = p t) (tokens : List Token) :
    (tokens.map (Token.moved f)).dropWhile p = (tokens.dropWhile p).map (Token.moved f) := by
  rw [List.dropWhile_map]
  congr 2
  exact funext hp

theorem gap_moved (endOfLine : Kind) (output : List Token) :
    gap endOfLine (output.map (Token.moved f)) = (gap endOfLine output).moved f := by
  have hcodes := takeWhile_moved f (p := fun t => !t.code) fun _ => rfl
  have hsettled := dropWhile_moved f (p := fun t => !t.code) fun _ => rfl
  have hline := takeWhile_moved f (p := fun t => t.kind != some endOfLine) fun _ => rfl
  have hbehind := dropWhile_moved f (p := fun t => t.kind != some endOfLine) fun _ => rfl
  unfold gap
  simp only [hcodes, hsettled, ← List.map_reverse, hline, hbehind, List.isEmpty_map]
  split
  · rfl
  · simp only [Gap.moved, List.map_append]

theorem kindOnLine_moved (kind : Kind) (line : Int) (output : List Token) :
    kindOnLine kind line (output.map (Token.moved f)) = kindOnLine kind line output := by
  induction output with
  | nil => rfl
  | cons t older ih =>
    rw [List.map_cons, kindOnLine, kindOnLine, ih]
    rfl

namespace State

theorem emit_moved : (s.moved f).emit (t.moved f) = (s.emit t).moved f := rfl

theorem await_moved : (s.moved f).await c (t.moved f) = (s.await c t).moved f := by
  have hkind : (t.moved f).kind = t.kind := rfl
  unfold await
  rw [hkind]
  split <;> rfl

theorem openBlock_moved : (s.moved f).openBlock c (t.moved f) = (s.openBlock c t).moved f := by
  unfold openBlock
  rw [← emit_moved, ← await_moved]
  rfl

theorem startLine_moved : (s.moved f).startLine c (t.moved f) = (s.startLine c t).moved f := by
  have hgap : gap c.endOfLine (s.moved f).output = (gap c.endOfLine s.output).moved f :=
    gap_moved f c.endOfLine s.output
  have hanchor : ((gap c.endOfLine s.output).moved f).later.getLast?.getD (t.moved f) =
      ((gap c.endOfLine s.output).later.getLast?.getD t).moved f := by
    rw [Gap.moved, List.getLast?_map, Option.getD_map]
  have hdedent : (s.moved f).blocks.dedent (t.moved f).column = s.blocks.dedent t.column := rfl
  unfold startLine
  simp only [hgap, hanchor, hdedent]
  generalize (gap c.endOfLine s.output).later.getLast?.getD t = anchor
  generalize s.blocks.dedent t.column = d
  simp only [moved, Gap.moved, List.map_append, List.map_reverse, List.map_map, before_moved]
  cases d.separates <;> rfl

theorem closeLet_moved : (s.moved f).closeLet c (t.moved f) = (s.closeLet c t).moved f := by
  have hlet : kindOnLine c.letKind (t.moved f).line (s.moved f).output =
      kindOnLine c.letKind t.line s.output :=
    kindOnLine_moved f c.letKind t.line s.output
  have hkind : (t.moved f).kind = t.kind := rfl
  have hblocks : (s.moved f).blocks = s.blocks := rfl
  unfold closeLet
  rw [hlet, hkind, hblocks]
  split <;> rfl

theorem follow_moved :
    (s.moved f).follow c m (t.moved f) = (s.follow c m t).map (State.moved f) := by
  have hin : inMargin m (t.moved f) = inMargin m t := rfl
  unfold follow
  rw [hin, await_moved]
  cases inMargin m t with
  | error e => rfl
  | ok atMargin =>
    cases atMargin with
    | false => simp only [Except.map, Bool.false_eq_true, if_false, closeLet_moved, emit_moved]
    | true => simp only [Except.map, if_true, startLine_moved, closeLet_moved, emit_moved]

/-- One token changes a moved state as it changes the state. -/
theorem step_moved : (s.moved f).step c m (t.moved f) = (s.step c m t).map (State.moved f) := by
  have hin : inMargin m (t.moved f) = inMargin m t := rfl
  have hphase : (s.moved f).phase = s.phase.moved f := rfl
  have hpeek : (s.moved f).blocks.peek = s.blocks.peek := rfl
  have hcolumn : (t.moved f).column = t.column := rfl
  have hcode : (t.moved f).code = t.code := rfl
  unfold step
  rw [hphase, hpeek, hcolumn, hcode, hin]
  cases s.phase with
  | dormant => simp only [Phase.moved, await_moved, emit_moved, Except.map]
  | running => exact s.follow_moved f c m t
  | awaiting opener =>
    simp only [Phase.moved]
    split
    · rw [openBlock_moved, Except.map]
    · cases inMargin m t with
      | error e => rfl
      | ok atMargin =>
        cases atMargin with
        | false => rfl
        | true => exact (s.abandon opener).follow_moved f c m t

theorem run_moved (tokens : List Token) :
    (s.moved f).run c m (tokens.map (Token.moved f)) =
      (s.run c m tokens).map (State.moved f) := by
  induction tokens generalizing s with
  | nil => rfl
  | cons t more ih =>
    have hcons (s : State) (t : Token) (more : List Token) :
        s.run c m (t :: more) = (s.step c m t).bind fun s' => s'.run c m more := rfl
    rw [List.map_cons, hcons, hcons, step_moved]
    cases s.step c m t with
    | error e => rfl
    | ok s' => exact ih s'

theorem finish_moved (atEnd : Token) :
    (s.moved f).finish c (atEnd.moved f) = (s.finish c atEnd).moved f := by
  have hphase : (s.moved f).phase = s.phase.moved f := rfl
  unfold finish
  rw [hphase]
  simp only [moved, List.map_append, List.map_cons, List.map_map]
  cases s.phase <;> rfl

end State

theorem Resolution.ofState_moved (taken depth : Nat) :
    Resolution.ofState (s.moved f) taken depth = (Resolution.ofState s taken depth).moved f := by
  simp only [Resolution.ofState, State.moved, Resolution.moved, List.map_reverse, List.map_cons,
    List.length_map]
  rfl

theorem resolve_moved (tokens : List Token) :
    resolve c m (tokens.map (Token.moved f)) = (resolve c m tokens).map (Resolution.moved f) := by
  have hinitial : State.initial = State.initial.moved f := rfl
  unfold resolve
  rw [takeWhile_moved f (p := (!·.isEnd)) (fun _ => rfl),
    dropWhile_moved f (p := (!·.isEnd)) (fun _ => rfl), List.head?_map,
    List.length_map]
  conv_lhs => rw [hinitial]
  rw [State.run_moved]
  cases State.initial.run c m (tokens.takeWhile (!·.isEnd)) with
  | error e => rfl
  | ok s =>
    cases (tokens.dropWhile (!·.isEnd)).head? with
    | none => exact congrArg Except.ok (Resolution.ofState_moved f s _ _)
    | some atEnd =>
      simp only [Except.map, Option.map_some, State.finish_moved]
      exact congrArg Except.ok (Resolution.ofState_moved f _ _ _)

end

/-- The change of offsets keeps the widths of the tokens that stay on their line. -/
def KeepsWidths (c : Config) (f : Int → Int) (raws : List Raw) : Prop :=
  ∀ r ∈ raws, r.kind ≠ some c.endOfLine → f r.stop - f r.start = r.stop - r.start

section Place

variable {c : Config} {f : Int → Int} {raws : List Raw}

theorem Placement.run_moved (h : KeepsWidths c f raws) (bufferEnd column : Int) (m : Margins) :
    run c (f bufferEnd) column m (raws.map (Raw.moved f)) =
      (run c bufferEnd column m raws).moved f := by
  induction raws generalizing column m with
  | nil => rfl
  | cons r more ih =>
    have hmore : KeepsWidths c f more := fun r hr => h r (List.mem_cons_of_mem _ hr)
    have hcolumn : columnBehind c column (r.moved f) = columnBehind c column r := by
      unfold columnBehind
      by_cases hend : r.kind = some c.endOfLine
      · rw [if_pos (show (r.moved f).kind = _ from hend), if_pos hend]
      · rw [if_neg (show (r.moved f).kind ≠ _ from hend), if_neg hend]
        exact congrArg (column + ·) (h r List.mem_cons_self hend)
    have hmargins : marginsBehind c column m (r.moved f) = marginsBehind c column m r := rfl
    rw [List.map_cons, run_cons, run_cons, hcolumn, hmargins, ih hmore]
    rfl

/-- Layout commutes with every change of offsets that keeps widths. -/
theorem layOut_moved (h : KeepsWidths c f raws) (bufferEnd : Int) :
    layOut c (raws.map (Raw.moved f)) (f bufferEnd) = (layOut c raws bufferEnd).moved f := by
  have hplace : place c (raws.map (Raw.moved f)) (f bufferEnd) = (place c raws bufferEnd).moved f :=
    Placement.run_moved h bufferEnd 0 _
  have hmoved := resolve_place c (raws.map (Raw.moved f)) (f bufferEnd)
  rw [hplace, Placement.moved, resolve_moved, resolve_place, Except.map, Except.ok.injEq] at hmoved
  exact hmoved.symm

end Place

end OffsideRule.Layout
