import OffsideRule.Proofs.Rounds
import OffsideRule.Proofs.Steps

/-! The moments of a resolution. At each moment the next token is looked at, or a line is compared
with one more open block. A token that makes an opener give up is looked at again, and nothing in
this bounds the number of moments. From moment to moment the resolution follows the run over the
tokens (`Along`): it looks at no token more than twice and ends where the run ends. -/

namespace OffsideRule.Layout

inductive Moment
  /-- The first token of `todo` is looked at, for the time numbered `turn`. -/
  | looking (s : State) (todo : List Token) (turn : Nat)
  /-- In its turn `t`, which begins a line, is compared with the open blocks. The output of `s` ends
  at the gap, and `later` is the output behind it. -/
  | comparing (s : State) (later : List Token) (t : Token) (todo : List Token) (turn : Nat)
  deriving DecidableEq, Repr

/-- What a moment leads to: the next one, or the end, with the depth that is logged. -/
inductive Outcome
  | going (x : Moment)
  | ended (s : State) (depth : Nat)
  deriving DecidableEq, Repr

namespace Moment

def first (tokens : List Token) : Moment :=
  .looking .initial tokens 1

def turn : Moment → Nat
  | looking _ _ turn => turn
  | comparing _ _ _ _ turn => turn

def blocks : Moment → Blocks
  | looking s _ _ => s.blocks
  | comparing s _ _ _ _ => s.blocks

/-- Looks at `t`, which does not end the input. -/
def look (c : Config) (m : Margins) (s : State) (t : Token) (todo : List Token) (turn : Nat) :
    Except NoSuchLine Moment :=
  match s.phase with
  | .dormant => .ok (.looking ((s.await c t).emit t) todo 1)
  | .awaiting opener =>
    if t.code && t.column > s.blocks.peek then .ok (.looking (s.openBlock c t) todo 1)
    else
      (inMargin m t).map fun atMargin =>
        if atMargin && t.column ≤ s.blocks.peek then
          .looking (s.abandon opener) (t :: todo) (turn + 1)
        else .looking (s.emit t) todo 1
  | .running =>
    (inMargin m t).map fun atMargin =>
      let awaiting := s.await c t
      let g := gap c.endOfLine awaiting.output
      if atMargin then .comparing { awaiting with output := g.earlier } g.later t todo turn
      else .looking ((awaiting.closeLet c t).emit t) todo 1

/-- The moment behind a round of the comparison. -/
def afterRound (c : Config) (later : List Token) (t : Token) (todo : List Token) (turn : Nat) :
    Round → Moment
  | .again s => .comparing s later t todo turn
  | .last s => .looking (({ s with output := later ++ s.output }.closeLet c t).emit t) todo 1

def next (c : Config) (m : Margins) : Moment → Except NoSuchLine Outcome
  | looking s [] _ => .ok (.ended s 0)
  | looking s (t :: todo) turn =>
    if t.isEnd then .ok (.ended (s.finish c t) s.blocks.depth)
    else (look c m s t todo turn).map .going
  | comparing s later t todo turn =>
    .ok (.going (afterRound c later t todo turn (s.compare c (later.getLast?.getD t) t.column)))

/-- What `n` moments lead to. -/
def after (c : Config) (m : Margins) : Nat → Moment → Except NoSuchLine Outcome
  | 0, x => .ok (.going x)
  | n + 1, x =>
    match x.next c m with
    | .ok (.going y) => after c m n y
    | result => result

/-- The resolution gets from one moment to another, and all moments before this one satisfy `P`. -/
inductive Leads (c : Config) (m : Margins) (P : Moment → Prop) : Moment → Moment → Prop
  | refl (x : Moment) : Leads c m P x x
  | cons {x y z : Moment} : P x → x.next c m = .ok (.going y) → Leads c m P y z → Leads c m P x z

namespace Leads

variable {c : Config} {m : Margins} {P : Moment → Prop} {x y z : Moment}

theorem single (hx : P x) (h : x.next c m = .ok (.going y)) : Leads c m P x y :=
  .cons hx h (.refl y)

theorem trans (h : Leads c m P x y) (h' : Leads c m P y z) : Leads c m P x z := by
  induction h with
  | refl => exact h'
  | cons hx hnext _ ih => exact .cons hx hnext (ih h')

/-- A resolution that gets to a moment at which it ends has ended after finitely many moments, and
has met no others than those on the way. -/
theorem ended {s : State} {depth : Nat} (h : Leads c m P x y) (hy : P y)
    (hend : y.next c m = .ok (.ended s depth)) :
    (∃ n, x.after c m n = .ok (.ended s depth)) ∧
      ∀ n z, x.after c m n = .ok (.going z) → P z := by
  induction h with
  | refl y =>
    refine ⟨⟨1, by rw [after, hend]⟩, fun n z hz => ?_⟩
    cases n with
    | zero =>
      cases hz
      exact hy
    | succ n =>
      simp [after, hend] at hz
  | @cons x y _ hx hnext _ ih =>
    obtain ⟨⟨n, hn⟩, hall⟩ := ih hy hend
    refine ⟨⟨n + 1, by rw [after, hnext]; exact hn⟩, fun n z hz => ?_⟩
    cases n with
    | zero =>
      cases hz
      exact hx
    | succ n =>
      rw [after, hnext] at hz
      exact hall n z hz

end Leads

end Moment

end OffsideRule.Layout
