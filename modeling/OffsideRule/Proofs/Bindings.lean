import OffsideRule.Proofs.Matching
import OffsideRule.Proofs.Openers

/-! The same-line rule. The word that ends a binding closes the innermost open block if any binding
began earlier on the line, no matter which opener this block belongs to. Which one it is can be read
off the line alone (`openOnLine`): while the run takes the code of a line, the openers of the open
blocks are those the line leaves open, before others of earlier lines (`Owned`). -/

namespace OffsideRule.Layout

/-- The code among some tokens that was read on a line, newest first. -/
def codeOnLine (line : Int) (tokens : List Token) : List Token :=
  (tokens.filter fun u => u.code && !u.virtual && u.line == line).reverse

/-- The openers whose blocks a line of code, newest first, leaves open. The block of an opener opens
before the next code. Any other word that ends a binding closes the innermost block, if a binding
began before it. -/
def openOnLine (c : Config) : List Token → List Token
  | [] => []
  | [_] => []
  | u :: k :: older =>
    if c.isOpener k.kind then k :: openOnLine c (k :: older)
    else if u.kind == some c.inKind && (k :: older).any (·.kind == some c.letKind) then
      (openOnLine c (k :: older)).tail
    else openOnLine c (k :: older)

/-- The last of some tokens after which a block begins. -/
def lastOpener (c : Config) (tokens : List Token) : Option Token :=
  (tokens.filter (c.isOpener ·.kind)).getLast?

/-- A delimiter that closes a block between `front` and `t` closes that of a binding which began on
the line of `t`. -/
def EndsLet (c : Config) (front : List Token) (t : Token) : Prop :=
  ∃ before d inner k, front = before ++ d :: inner ∧ d.isOpening c = true ∧ Balanced c inner ∧
    lastOpener c before = some k ∧ k.kind = some c.letKind ∧ k.line = t.line

/-- What a delimiter that closes a block between `front` and `t` closes, where `t` ends a binding. -/
structure EndsInnermost (c : Config) (front : List Token) (t : Token) : Prop where
  /-- Some binding began on the line. -/
  binding : ∃ u ∈ front, u.virtual = false ∧ u.kind = some c.letKind ∧ u.line = t.line
  /-- The block belongs to the innermost opener that the line leaves open, or to one of an earlier
  line if there is none. -/
  block : ∃ before d inner k, front = before ++ d :: inner ∧ d.isOpening c = true ∧
    Balanced c inner ∧ lastCode before = some k ∧ c.isOpener k.kind = true ∧
    (openOnLine c (codeOnLine t.line front)).head? = if k.line = t.line then some k else none
  /-- So it is the block of a binding of this line exactly where the line leaves one innermost. -/
  own : EndsLet c front t ↔
    ∃ k, (openOnLine c (codeOnLine t.line front)).head? = some k ∧ k.kind = some c.letKind

section Line

variable {c : Config} {k t u : Token} {codes mid older tokens : List Token} {line : Int}

theorem mem_openOnLine (h : k ∈ openOnLine c codes) : k ∈ codes ∧ c.isOpener k.kind = true := by
  induction codes with
  | nil => simp [openOnLine] at h
  | cons u codes ih =>
    cases codes with
    | nil => simp [openOnLine] at h
    | cons v older =>
      have hold (h : k ∈ openOnLine c (v :: older)) :
          k ∈ u :: v :: older ∧ c.isOpener k.kind = true :=
        ⟨List.mem_cons_of_mem u (ih h).1, (ih h).2⟩
      rw [openOnLine] at h
      split at h
      · next hopener =>
        rcases List.mem_cons.mp h with rfl | h
        · exact ⟨by simp, hopener⟩
        · exact hold h
      · split at h
        · exact hold (List.mem_of_mem_tail h)
        · exact hold h

theorem openOnLine_opener (hopener : c.isOpener k.kind = true) :
    openOnLine c (u :: k :: older) = k :: openOnLine c (k :: older) := by
  rw [openOnLine, if_pos hopener]

theorem openOnLine_plain (hopener : c.isOpener k.kind = false) :
    openOnLine c (u :: k :: older) =
      if u.kind == some c.inKind && (k :: older).any (·.kind == some c.letKind) then
        (openOnLine c (k :: older)).tail
      else openOnLine c (k :: older) := by
  rw [openOnLine, if_neg (by simp [hopener])]

/-- Code behind an opener that neither opens nor closes blocks leaves the opener innermost. -/
theorem openOnLine_of_plain (hopener : c.isOpener k.kind = true) (hmid : mid ≠ [])
    (hplain : ∀ u ∈ mid, c.isOpener u.kind = false ∧ u.kind ≠ some c.inKind) :
    (openOnLine c (mid ++ k :: older)).head? = some k := by
  induction mid with
  | nil => contradiction
  | cons u mid ih =>
    cases mid with
    | nil => rw [List.singleton_append, openOnLine_opener hopener, List.head?_cons]
    | cons v mid =>
      have hu := hplain u (by simp)
      have hv := hplain v (by simp)
      have hrest := ih (by simp) fun w hw => hplain w (by simp [hw])
      rw [List.cons_append] at hrest
      rw [List.cons_append, List.cons_append, openOnLine_plain hv.1, if_neg (by simp [hu.2])]
      exact hrest

theorem codeOnLine_concat :
    codeOnLine line (tokens ++ [t]) =
      if t.code && !t.virtual && t.line == line then t :: codeOnLine line tokens
      else codeOnLine line tokens := by
  unfold codeOnLine
  rw [List.filter_append, List.reverse_append, List.filter_cons]
  split <;> rfl

theorem mem_codeOnLine : u ∈ codeOnLine line tokens ↔
    u ∈ tokens ∧ u.code = true ∧ u.virtual = false ∧ u.line = line := by
  simp [codeOnLine, and_assoc]

theorem codeOnLine_eq_nil (h : ∀ u ∈ tokens, u.code = true → u.line ≠ line) :
    codeOnLine line tokens = [] := by
  apply List.eq_nil_iff_forall_not_mem.mpr
  intro u hu
  obtain ⟨hmem, hcode, -, hline⟩ := mem_codeOnLine.mp hu
  exact h u hmem hcode hline

/-- The newest code of a line is the last code, if this is real and on the line. -/
theorem codeOnLine_of_lastCode (h : lastCode tokens = some u) (hreal : u.virtual = false)
    (hline : u.line = line) : ∃ older, codeOnLine line tokens = u :: older := by
  obtain ⟨front, back, rfl, hcode, hback⟩ := exists_of_lastCode h
  have hnone : codeOnLine line back = [] :=
    codeOnLine_eq_nil fun v hv hvcode => by simp [hback v hv] at hvcode
  refine ⟨codeOnLine line front, ?_⟩
  unfold codeOnLine at hnone ⊢
  rw [List.filter_append, List.filter_cons_of_pos (by simp [hcode, hreal, hline]),
    List.reverse_append, List.reverse_cons, hnone]
  rfl

/-- Delimiters do not count as code of a line. -/
theorem codeOnLine_filter :
    codeOnLine line (tokens.filter (!·.virtual)) = codeOnLine line tokens := by
  unfold codeOnLine
  rw [List.filter_filter]
  congr 2
  funext u
  cases u.virtual <;> simp

/-- The rule closes the block of a binding if nothing else opens or closes a block between its two
words. -/
theorem EndsInnermost.endsLet {front : List Token} (h : EndsInnermost c front t)
    (hline : codeOnLine t.line front = mid ++ k :: older) (hkind : k.kind = some c.letKind)
    (hopener : c.isOpener k.kind = true) (hmid : mid ≠ [])
    (hplain : ∀ u ∈ mid, c.isOpener u.kind = false ∧ u.kind ≠ some c.inKind) :
    EndsLet c front t := by
  rw [h.own, hline]
  exact ⟨k, openOnLine_of_plain hopener hmid hplain, hkind⟩

/-- Where all openers are code, an opener that is the last code is the last opener. -/
theorem lastOpener_of_lastCode (hcode : ∀ u ∈ tokens, c.isOpener u.kind = true → u.code = true)
    (hlast : lastCode tokens = some k) (hopener : c.isOpener k.kind = true) :
    lastOpener c tokens = some k := by
  obtain ⟨front, back, rfl, -, hback⟩ := exists_of_lastCode hlast
  have hnone : back.filter (c.isOpener ·.kind) = [] := by
    apply List.filter_eq_nil_iff.mpr
    intro u hu hkind
    have := hcode u (by simp [hu]) hkind
    rw [hback u hu] at this
    contradiction
  rw [lastOpener, List.filter_append, List.filter_cons, if_pos hopener, hnone, List.getLast?_concat]

/-- Which block is closed tells whether it is that of a binding of the line. -/
theorem endsLet_iff {front before inner : List Token} {d : Token} (hc : c.Distinct)
    (hcode : ∀ u ∈ before, c.isOpener u.kind = true → u.code = true)
    (hfront : front = before ++ d :: inner) (hd : d.isOpening c = true) (hinner : Balanced c inner)
    (hlast : lastCode before = some k) (hopener : c.isOpener k.kind = true)
    (hhead : (openOnLine c codes).head? = if k.line = t.line then some k else none) :
    EndsLet c front t ↔
      ∃ k, (openOnLine c codes).head? = some k ∧ k.kind = some c.letKind := by
  have hlastOpener := lastOpener_of_lastCode hcode hlast hopener
  rw [hhead]
  constructor
  · rintro ⟨before', d', inner', k', hfront', hd', hinner', hk', hkind, hline⟩
    obtain rfl := opening_unique hc hd hd' hinner hinner' (hfront.symm.trans hfront')
    obtain rfl : k = k' := Option.some.inj (hlastOpener.symm.trans hk')
    exact ⟨k, if_pos hline, hkind⟩
  · rintro ⟨k', hk', hkind⟩
    split at hk'
    · next hline =>
      obtain rfl : k = k' := Option.some.inj hk'
      exact ⟨before, d, inner, k, hfront, hd, hinner, hlastOpener, hkind, hline⟩
    · contradiction

end Line

namespace State

variable {c : Config} {s : State} {t : Token}

/-- The openers of the open blocks, innermost first: the code nearest before each block. -/
def owners (c : Config) (s : State) : List (Option Token) :=
  (entries c s.output).map fun before => (before.filter (·.code)).head?

theorem owners_await : (s.await c t).owners c = s.owners c := by
  rw [owners, await_output, owners]

theorem owners_emit (ht : t.virtual = false) : (s.emit t).owners c = s.owners c := by
  rw [owners, emit_output, entries_real ht, owners]

theorem owners_openBlock (ht : t.virtual = false) :
    (s.openBlock c t).owners c = s.codes.head? :: s.owners c := by
  rw [owners, openBlock_output, entries_real ht, entries_open, List.map_cons, owners, codes]

theorem owners_startLine (hc : c.Distinct) (h : Tracks c s) :
    (s.startLine c t).owners c = (s.owners c).drop (s.blocks.dedent t.column).closed.length := by
  have hlater := gap_later_real c.endOfLine h.coded
  have hearlier : entries c (gap c.endOfLine s.output).earlier = entries c s.output := by
    rw [← entries_append_real hlater, gap_append]
  have hdelimiters : entries c (s.delimiters c t ++ (gap c.endOfLine s.output).earlier) =
      (entries c s.output).drop (s.blocks.dedent t.column).closed.length := by
    rw [delimiters, List.map_const', List.append_assoc]
    split
    · rw [List.singleton_append, entries_separator hc, entries_closes hc, hearlier]
    · rw [List.nil_append, entries_closes hc, hearlier]
  rw [owners, startLine_output, List.append_assoc, entries_append_real hlater, hdelimiters,
    List.map_drop, owners]

theorem owners_closeLet (hc : c.Distinct) :
    (s.closeLet c t).owners c =
      if s.endsBinding c t then (s.owners c).tail else s.owners c := by
  rw [owners, closeLet_output]
  split
  · rw [entries_close hc, List.map_tail, owners]
  · rw [owners]

theorem entries_eq_nil_iff (h : Tracks c s) :
    entries c s.output = [] ↔ s.blocks.peek = topLevel := by
  rw [← List.length_eq_zero_iff, length_entries, List.length_eq_zero_iff, h.peek_eq, innermost]
  cases hopen : openColumns c s.output.reverse with
  | nil => simp
  | cons column outer =>
    have := h.topLevel_lt column (by rw [hopen]; simp)
    simp only [List.headD_cons, reduceCtorEq, false_iff]
    omega

/-- A line that ends no binding closes some of the inner blocks. -/
theorem owners_proceed_true (hc : c.Distinct) (ht : t.virtual = false) (h : Tracks c s)
    (hends : (s.started c t true).endsBinding c t = false) :
    (s.proceed c t true).owners c =
      (s.owners c).drop (s.blocks.dedent t.column).closed.length := by
  have hawait : Tracks c (s.await c t) := h.of_eq (s.await_output c t) (s.await_blocks c t)
  rw [proceed, owners_emit ht, owners_closeLet hc, hends, if_neg (by simp), started_true,
    owners_startLine hc hawait, owners_await, await_blocks]

/-- In the middle of a line only a word that ends a binding closes a block. -/
theorem owners_proceed_false (hc : c.Distinct) (ht : t.virtual = false) (h : Tracks c s) :
    (s.proceed c t false).owners c =
      if t.kind == some c.inKind && kindOnLine c.letKind t.line s.output then (s.owners c).tail
      else s.owners c := by
  rw [proceed, owners_emit ht, owners_closeLet hc, started_false, owners_await, endsBinding_await,
    endsBinding]
  by_cases hpeek : s.blocks.peek > topLevel
  · simp [hpeek]
  · -- there is no block to close
    have htop : s.blocks.peek = topLevel := by
      have := h.topLevel_le_peek
      omega
    have hnone : s.owners c = [] := by
      rw [owners, (entries_eq_nil_iff h).mpr htop, List.map_nil]
    simp [hnone]

end State

/-- The look back for the word that began a binding sees the code of the line. -/
theorem Lined.kindOnLine_eq_any {c : Config} (hc : c.Regular) {m : Margins} {s : State}
    {xs ys : List Token} {t : Token} (hlaid : Laid c m (xs ++ t :: ys)) (h : Lined c xs s) :
    kindOnLine c.letKind t.line s.output =
      (codeOnLine t.line xs).any (·.kind == some c.letKind) := by
  rw [Bool.eq_iff_iff, ← s.await_output c t, ← State.started_false, h.letOnLine_iff hc hlaid,
    List.any_eq_true]
  constructor
  · rintro ⟨u, hu, hkind, hline⟩
    have hmem : u ∈ xs ++ t :: ys := List.mem_append_left _ hu
    have hcode : u.code = true := by rw [hlaid.code u hmem, hkind, hc.code_of_let]
    exact ⟨u, mem_codeOnLine.mpr ⟨hu, hcode, hlaid.real u hmem, hline⟩, by simp [hkind]⟩
  · rintro ⟨u, hu, hkind⟩
    obtain ⟨hmem, -, -, hline⟩ := mem_codeOnLine.mp hu
    exact ⟨u, hmem, by simpa using hkind, hline⟩

/-- The openers of the open blocks are those that `line` leaves open, and then others of earlier
lines. -/
def Owned (c : Config) (taken : List Token) (s : State) (line : Int) : Prop :=
  ∃ outer : List Token,
    s.owners c = (openOnLine c (codeOnLine line taken) ++ outer).map some ∧
      ∀ k ∈ outer, c.isOpener k.kind = true ∧ k.line < line

theorem Owned.later {c : Config} {taken : List Token} {s : State} {line line' : Int}
    (h : Owned c taken s line) (htaken : ∀ u ∈ taken, u.code = true → u.line ≤ line)
    (hline : line ≤ line') : Owned c taken s line' := by
  obtain ⟨outer, howners, houter⟩ := h
  rcases Int.lt_or_eq_of_le hline with hlt | rfl
  · have hnone : codeOnLine line' taken = [] :=
      codeOnLine_eq_nil fun u hu hcode => by have := htaken u hu hcode; omega
    refine ⟨openOnLine c (codeOnLine line taken) ++ outer, by rw [howners, hnone]; rfl, ?_⟩
    intro k hk
    rcases List.mem_append.mp hk with hk | hk
    · obtain ⟨hmem, hopener⟩ := mem_openOnLine hk
      have := (mem_codeOnLine.mp hmem).2.2.2
      exact ⟨hopener, by omega⟩
    · have := houter k hk
      exact ⟨this.1, by omega⟩
  · exact ⟨outer, howners, houter⟩

/-- What a run keeps of the openers of the open blocks. -/
structure Owns (c : Config) (taken : List Token) (s : State) : Prop where
  consistent : Consistent c taken s
  waits : ∀ u, lastCode taken = some u → c.isOpener u.kind = true → s.phase = .awaiting u
  owned : ∀ line, (∀ u ∈ taken, u.code = true → u.line ≤ line) → Owned c taken s line

namespace Owns

variable {c : Config} {m : Margins} {s s' : State} {xs ys : List Token} {t : Token}

theorem initial (c : Config) : Owns c [] State.initial where
  consistent := .initial c
  waits := by simp [lastCode]
  owned := fun _ _ => ⟨[], rfl, by simp⟩

theorem line_le (hlaid : Laid c m (xs ++ t :: ys)) : ∀ u ∈ xs, u.line ≤ t.line := by
  intro u hu
  have hbefore := (List.pairwise_append.mp hlaid.ordered).2.2 u hu t (by simp)
  unfold Token.Before at hbefore
  omega

/-- The first code of a line leaves open blocks of earlier lines only. -/
theorem owned_first (hc : c.Regular) (hlaid : Laid c m (xs ++ t :: ys)) (h : Owns c xs s)
    (hcode : t.code = true) (hbegins : BeginsLine (xs ++ t :: ys) t) (hstep : Step c m s t s') :
    Owned c (xs ++ [t]) s' t.line := by
  have ht := hlaid.real t (by simp)
  have hfirst := (hlaid.beginsLine_iff hcode).mp hbegins
  obtain ⟨outer, howners, houter⟩ := h.owned t.line fun u hu _ => line_le hlaid u hu
  rw [codeOnLine_eq_nil hfirst, openOnLine, List.nil_append] at howners
  have hline : openOnLine c (codeOnLine t.line (xs ++ [t])) = [] := by
    rw [codeOnLine_concat, codeOnLine_eq_nil hfirst, if_pos (by simp [hcode, ht]), openOnLine]
  have hproceed {s : State} (hs : Consistent c xs s) (hsowners : s.owners c = outer.map some) :
      Owned c (xs ++ [t]) (s.proceed c t true) t.line := by
    have hends := hs.lined.endsBinding_of_beginsLine hc hlaid hcode hbegins true
    refine ⟨outer.drop (s.blocks.dedent t.column).closed.length, ?_, fun k hk =>
      houter k (List.mem_of_mem_drop hk)⟩
    rw [State.owners_proceed_true hc.toDistinct ht hs.tracks hends, hsowners, hline,
      List.nil_append, List.map_drop]
  cases hstep with
  | idles _ =>
    refine ⟨outer, ?_, houter⟩
    rw [State.owners_emit ht, State.owners_await, howners, hline, List.nil_append]
  | @opens opener hphase _ _ =>
    obtain ⟨hlast, hopener⟩ := h.consistent.awaiting opener hphase
    obtain ⟨hmem, hopcode⟩ := mem_of_lastCode hlast
    refine ⟨opener :: outer, ?_, ?_⟩
    · rw [State.owners_openBlock ht, h.consistent.newest, hlast, howners, hline, List.nil_append,
        List.map_cons]
    · intro k hk
      rcases List.mem_cons.mp hk with rfl | hk
      · have hle := line_le hlaid k hmem
        have hne := hfirst k hmem hopcode
        exact ⟨hopener, by omega⟩
      · exact houter k hk
  | passes _ hleft hin => exact absurd hin (h.consistent.not_passes hlaid hcode (hleft hcode))
  | givesUp _ _ _ _ => exact hproceed (h.consistent.abandon _) howners
  | @proceeds atMargin _ hin =>
    have hmargin := (Consistent.inMargin_iff hlaid hcode hin).mpr hbegins
    subst hmargin
    exact hproceed h.consistent howners

/-- Further code of a line opens and closes blocks as the line alone tells. -/
theorem owned_next (hc : c.Regular) (hlaid : Laid c m (xs ++ t :: ys)) (h : Owns c xs s)
    (hcode : t.code = true) (hnot : ¬ BeginsLine (xs ++ t :: ys) t) (hstep : Step c m s t s') :
    Owned c (xs ++ [t]) s' t.line := by
  have ht := hlaid.real t (by simp)
  obtain ⟨u, hu, huline, -⟩ := hlaid.lastCode_of_not_beginsLine hcode hnot
  have hureal := hlaid.real u (List.mem_append_left _ (mem_of_lastCode hu).1)
  obtain ⟨older, holder⟩ := codeOnLine_of_lastCode hu hureal huline
  have hline : codeOnLine t.line (xs ++ [t]) = t :: u :: older := by
    rw [codeOnLine_concat, if_pos (by simp [hcode, ht]), holder]
  obtain ⟨outer, howners, houter⟩ := h.owned t.line fun u hu _ => line_le hlaid u hu
  rw [holder] at howners
  -- the block of an opener opens in a step of its own
  have hplain {phase : Phase} (hphase : s.phase = phase) (hnone : phase ≠ .awaiting u) :
      c.isOpener u.kind = false := by
    rw [← Bool.not_eq_true]
    intro hopener
    exact hnone (hphase.symm.trans (h.waits u hu hopener))
  have hmargin {atMargin : Bool} (hin : inMargin m t = .ok atMargin) : atMargin = false := by
    rw [← Bool.not_eq_true, Consistent.inMargin_iff hlaid hcode hin]
    exact hnot
  cases hstep with
  | idles hphase =>
    have hnone : s.owners c = [] := by
      rw [State.owners, (State.entries_eq_nil_iff h.consistent.tracks).mpr
        (h.consistent.dormant hphase), List.map_nil]
    obtain ⟨hhere, -⟩ := List.append_eq_nil_iff.mp
      (List.map_eq_nil_iff.mp (howners.symm.trans hnone))
    refine ⟨[], ?_, by simp⟩
    rw [State.owners_emit ht, State.owners_await, hnone, hline,
      openOnLine_plain (hplain hphase (by simp)), hhere]
    simp
  | @opens opener hphase _ _ =>
    obtain ⟨hlast, hopener⟩ := h.consistent.awaiting opener hphase
    obtain rfl : u = opener := Option.some.inj (hu.symm.trans hlast)
    refine ⟨outer, ?_, houter⟩
    rw [State.owners_openBlock ht, h.consistent.newest, hlast, howners, hline,
      openOnLine_opener hopener, List.cons_append, List.map_cons]
  | passes _ hleft hin => exact absurd hin (h.consistent.not_passes hlaid hcode (hleft hcode))
  | givesUp _ _ _ hin => simpa using hmargin hin
  | @proceeds atMargin hphase hin =>
    obtain rfl := hmargin hin
    rw [Owned, State.owners_proceed_false hc.toDistinct ht h.consistent.tracks, hline,
      openOnLine_plain (hplain hphase (by simp)), h.consistent.lined.kindOnLine_eq_any hc hlaid,
      holder, howners]
    split
    · -- where the line leaves no block open, a block of an earlier line is closed
      cases hhere : openOnLine c (u :: older) with
      | nil => exact ⟨outer.tail, by simp, fun k hk => houter k (List.mem_of_mem_tail hk)⟩
      | cons k here => exact ⟨outer, by simp, houter⟩
    · exact ⟨outer, rfl, houter⟩

theorem step (hc : c.Regular) (hlaid : Laid c m (xs ++ t :: ys)) (h : Owns c xs s)
    (hstep : Step c m s t s') : Owns c (xs ++ [t]) s' := by
  have hconsistent := h.consistent.step hc hlaid hstep
  cases hcode : t.code with
  | false =>
    have hlast : lastCode (xs ++ [t]) = lastCode xs := by rw [lastCode_concat, hcode]; rfl
    rw [hstep.eq_emit hc (hlaid.code t (by simp)) hcode] at hconsistent ⊢
    refine ⟨hconsistent, by rw [hlast]; exact h.waits, fun line hline => ?_⟩
    have ht := hlaid.real t (by simp)
    rw [Owned, codeOnLine_concat, if_neg (by simp [hcode]), State.owners_emit ht]
    exact h.owned line fun u hu => hline u (List.mem_append_left _ hu)
  | true =>
    have hlast : lastCode (xs ++ [t]) = some t := by rw [lastCode_concat, if_pos hcode]
    refine ⟨hconsistent, ?_, fun line hline => ?_⟩
    · intro u hu hopener
      obtain rfl : t = u := Option.some.inj (hlast.symm.trans hu)
      exact h.consistent.awaits hlaid hcode hopener hstep
    · have hhere : Owned c (xs ++ [t]) s' t.line := by
        by_cases hbegins : BeginsLine (xs ++ t :: ys) t
        · exact h.owned_first hc hlaid hcode hbegins hstep
        · exact h.owned_next hc hlaid hcode hbegins hstep
      refine hhere.later (fun u hu _ => ?_) (hline t (by simp) hcode)
      rcases List.mem_append.mp hu with hu | hu
      · exact line_le hlaid u hu
      · exact Int.le_of_eq (congrArg Token.line (List.mem_singleton.mp hu))

theorem run (hc : c.Regular) (hlaid : Laid c m (xs ++ ys))
    (hrun : State.initial.run c m xs = .ok s) : Owns c xs s := by
  refine State.run_induction (motive := fun xs s => Owns c xs s) hrun (.initial c) ?_
  intro front t back u u' hxs hu hstep
  rw [hxs, List.append_assoc, List.cons_append] at hlaid
  exact hu.step hc hlaid hstep

end Owns

end OffsideRule.Layout
