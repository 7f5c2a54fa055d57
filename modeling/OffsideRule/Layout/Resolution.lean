import OffsideRule.Layout.Blocks
import OffsideRule.Layout.Config
import OffsideRule.Layout.Event
import OffsideRule.Layout.Margins
import OffsideRule.Layout.Placement
import OffsideRule.Layout.Token

/-! The offside rule. Placed tokens are taken one by one. The first code after an opener begins a
block in its column; a later line that starts in this column begins the block's next item, and one
that starts left of it closes the block. Delimiters for all this are added to the stream. A block
whose first code does not lie inside the block around it is given up with a warning. -/

namespace OffsideRule.Layout

/-- What resolution waits for: the first opener of the source, the code that begins the block of
the last opener, or the next line. -/
inductive Phase
  | dormant
  | awaiting (opener : Token)
  | running
  deriving DecidableEq, Repr

/-- The output, warnings and events are kept newest first. -/
structure State where
  output : List Token
  blocks : Blocks
  phase : Phase
  warnings : List Warning
  events : List Event
  deriving DecidableEq, Repr

/-- Where delimiters between two lines go: before the end of the line that holds the last code, so
that the blanks and comments behind this code stay with it. `later` is the output from there on and
`earlier` the output before, both newest first. -/
structure Gap where
  later : List Token
  earlier : List Token
  deriving DecidableEq, Repr

/-- The gap in an output. Without code in the output, or without an end of line behind the last
code, it is at the very end. -/
def gap (endOfLine : Kind) (output : List Token) : Gap :=
  let trailing := (output.takeWhile fun t => !t.code).reverse
  let settled := output.dropWhile fun t => !t.code
  if settled.isEmpty then ⟨[], output⟩
  else
    ⟨(trailing.dropWhile fun t => t.kind != some endOfLine).reverse,
      (trailing.takeWhile fun t => t.kind != some endOfLine).reverse ++ settled⟩

/-- Whether the newest tokens, down to the first on another line, include one of the given kind;
that first one counts too. -/
def kindOnLine (kind : Kind) (line : Int) : List Token → Bool
  | [] => false
  | t :: older => t.kind == some kind || (t.line == line && kindOnLine kind line older)

/-- Whether `t` is code in the margin of its line. -/
def inMargin (m : Margins) (t : Token) : Except NoSuchLine Bool :=
  if t.code then (m.margin t.line).map (· == some t.column) else .ok false

theorem inMargin_of_covers {m : Margins} {t : Token} (h : t.code = true → m.Covers t.line) :
    ∃ atMargin, inMargin m t = .ok atMargin := by
  cases hc : t.code with
  | false => simp [inMargin, hc]
  | true =>
    obtain ⟨column, hm⟩ := Margins.margin_of_covers (h hc)
    simp [inMargin, hc, hm, Except.map]

namespace State

def initial : State :=
  ⟨[], Blocks.empty.push topLevel, .dormant, [], []⟩

def emit (s : State) (t : Token) : State :=
  { s with output := t :: s.output }

def log (s : State) (e : Event) : State :=
  { s with events := e :: s.events }

/-- Waits for the block of `t` if it is an opener. -/
def await (c : Config) (s : State) (t : Token) : State :=
  if c.isOpener t.kind then { s with phase := .awaiting t } else s

/-- Begins a block at `t`, which may itself be an opener. -/
def openBlock (c : Config) (s : State) (t : Token) : State :=
  let opened := (s.emit (.before c.openKind t)).log (.opened t.column t.start)
  (await c { opened with blocks := s.blocks.push t.column, phase := .running } t).emit t

/-- Gives up the block of `opener`. -/
def abandon (s : State) (opener : Token) : State :=
  let keyword := (opener.kind.map Kind.label).getD "EOF"
  let warning := ⟨"empty or unindented block after '" ++ keyword ++ "'", opener.start, opener.stop⟩
  { s with
    phase := .running
    warnings := warning :: s.warnings
    events := .abandoned keyword opener.start :: s.events }

/-- Lets the line that begins with `t` close blocks and begin an item. -/
def startLine (c : Config) (s : State) (t : Token) : State :=
  let g := gap c.endOfLine s.output
  let anchor := g.later.getLast?.getD t
  let d := s.blocks.dedent t.column
  let closes := d.closed.map fun _ => Token.before c.closeKind anchor
  let separators := if d.separates then [Token.before c.separatorKind anchor] else []
  { s with
    output := g.later ++ separators ++ closes ++ g.earlier
    blocks := d.remaining
    events := (d.closed.map fun column => Event.closed column anchor.start).reverse ++ s.events }

/-- Closes the innermost block if `t` ends a binding that began on the same line. -/
def closeLet (c : Config) (s : State) (t : Token) : State :=
  if t.kind == some c.inKind && kindOnLine c.letKind t.line s.output && s.blocks.peek > topLevel then
    { (s.emit (.before c.closeKind t)).log (.closedLet s.blocks.peek) with blocks := s.blocks.pop }
  else s

/-- Takes a token while no opener waits for its block. -/
def follow (c : Config) (m : Margins) (s : State) (t : Token) : Except NoSuchLine State :=
  (inMargin m t).map fun atMargin =>
    let awaiting := s.await c t
    let started := if atMargin then awaiting.startLine c t else awaiting
    (started.closeLet c t).emit t

/-- Takes one token. -/
def step (c : Config) (m : Margins) (s : State) (t : Token) : Except NoSuchLine State :=
  match s.phase with
  | .dormant => .ok ((s.await c t).emit t)
  | .running => s.follow c m t
  | .awaiting opener =>
    if t.code && t.column > s.blocks.peek then .ok (s.openBlock c t)
    else
      match inMargin m t with
      | .error e => .error e
      | .ok true => (s.abandon opener).follow c m t
      | .ok false => .ok (s.emit t)

def run (c : Config) (m : Margins) (s : State) (tokens : List Token) : Except NoSuchLine State :=
  tokens.foldlM (step c m) s

theorem step_of_covers (c : Config) {m : Margins} (s : State) {t : Token}
    (h : t.code = true → m.Covers t.line) : ∃ s', s.step c m t = .ok s' := by
  obtain ⟨atMargin, hin⟩ := inMargin_of_covers h
  have hfollow (s : State) : ∃ s', s.follow c m t = .ok s' := by simp [follow, hin, Except.map]
  unfold step
  split
  · exact ⟨_, rfl⟩
  · exact hfollow s
  · split
    · exact ⟨_, rfl⟩
    · cases atMargin <;> simp [hin, hfollow]

theorem run_of_covers (c : Config) {m : Margins} (s : State) {tokens : List Token}
    (h : ∀ t ∈ tokens, t.code = true → m.Covers t.line) : ∃ s', s.run c m tokens = .ok s' := by
  induction tokens generalizing s with
  | nil => exact ⟨s, rfl⟩
  | cons t more ih =>
    obtain ⟨s₁, h₁⟩ := s.step_of_covers c (h t (by simp))
    obtain ⟨s₂, h₂⟩ := ih s₁ fun t ht => h t (by simp [ht])
    exact ⟨s₂, by simpa [run, h₁, bind, Except.bind] using h₂⟩

/-- Closes at the end of the input all that is open, an awaited block as an empty one. -/
def finish (c : Config) (s : State) (atEnd : Token) : State :=
  let awaited := match s.phase with
    | .awaiting _ => [Token.before c.closeKind atEnd, Token.before c.openKind atEnd]
    | _ => []
  let closing := s.blocks.columns.filter fun column => column > topLevel || c.closeTopLevel
  let closes := closing.map fun _ => Token.before c.closeKind atEnd
  { s with output := atEnd :: closes ++ awaited ++ s.output, blocks := .empty }

end State

/-- A resolved stream, oldest token first, with its warnings and events. -/
structure Resolution where
  tokens : List Token
  warnings : List Warning
  events : List Event
  deriving DecidableEq, Repr

namespace Resolution

def empty : Resolution := ⟨[], [], []⟩

/-- The log of the resolution. -/
def log (r : Resolution) : List String :=
  r.events.map Event.entry

/-- The result of a state that was reached from `taken` tokens with `depth` open blocks. -/
def ofState (s : State) (taken depth : Nat) : Resolution where
  tokens := s.output.reverse
  warnings := s.warnings.reverse
  events := (Event.resolved taken s.output.length s.warnings.length depth :: s.events).reverse

end Resolution

/-- Resolves placed tokens up to the first end of input among them. Without one, nothing is closed
at the end. -/
def resolve (c : Config) (m : Margins) (tokens : List Token) : Except NoSuchLine Resolution :=
  (State.initial.run c m (tokens.takeWhile (!·.isEnd))).map fun s =>
    match (tokens.dropWhile (!·.isEnd)).head? with
    | none => .ofState s tokens.length 0
    | some atEnd => .ofState (s.finish c atEnd) tokens.length s.blocks.depth

theorem resolve_of_covers (c : Config) {m : Margins} {tokens : List Token}
    (h : ∀ t ∈ tokens, t.code = true → m.Covers t.line) : ∃ r, resolve c m tokens = .ok r := by
  have hfront : ∀ t ∈ tokens.takeWhile (!·.isEnd), t.code = true → m.Covers t.line :=
    fun t ht => h t ((tokens.takeWhile_sublist _).subset ht)
  obtain ⟨s, hs⟩ := State.initial.run_of_covers c hfront
  simp [resolve, hs, Except.map]

/-- Places and resolves the raw tokens of a buffer. Placed tokens have margins, so this cannot
fail. -/
def layOut (c : Config) (raws : List Raw) (bufferEnd : Int) : Resolution :=
  match h : resolve c (place c raws bufferEnd).margins (place c raws bufferEnd).tokens with
  | .ok r => r
  | .error _ => absurd h (by
      obtain ⟨r, hr⟩ := resolve_of_covers c fun t ht _ => place_covers c raws bufferEnd t ht
      simp [hr])

theorem resolve_place (c : Config) (raws : List Raw) (bufferEnd : Int) :
    resolve c (place c raws bufferEnd).margins (place c raws bufferEnd).tokens =
      .ok (layOut c raws bufferEnd) := by
  unfold layOut
  split
  · assumption
  · next h =>
    obtain ⟨r, hr⟩ := resolve_of_covers c fun t ht _ => place_covers c raws bufferEnd t ht
    simp [hr] at h

end OffsideRule.Layout
