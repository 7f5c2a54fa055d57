import OffsideRule.Proofs.Laid
import OffsideRule.Proofs.Steps

/-! Lines of the output. An added delimiter lies on the line of the token behind it, so the output
of laid tokens still passes from line to line at ends of lines only. Therefore the look back for
the word that began a binding finds it exactly if it was read earlier on the same line. -/

namespace OffsideRule.Layout

/-- `a`, which follows `b` in the output, lies on the same line, or `b` ends an earlier line. -/
def Above (c : Config) (a b : Token) : Prop :=
  a.line = b.line ∨ b.line < a.line ∧ b.kind = some c.endOfLine

section Chains

variable {c : Config} {t : Token} {output inserted : List Token}

theorem line_le_of_chain (h : (t :: output).IsChain (Above c)) : ∀ u ∈ output, u.line ≤ t.line := by
  induction output generalizing t with
  | nil => simp
  | cons v older ih =>
    obtain ⟨hv, hold⟩ := List.isChain_cons_cons.mp h
    have hle : v.line ≤ t.line := by
      unfold Above at hv
      omega
    intro u hu
    rcases List.mem_cons.mp hu with rfl | hu
    · exact hle
    · exact Int.le_trans (ih hold u hu) hle

/-- A line is left by its end only. -/
theorem line_eq_of_chain {v : Token} {newer older : List Token}
    (h : (t :: (newer ++ v :: older)).IsChain (Above c))
    (hnone : ∀ u ∈ newer ++ [v], u.kind ≠ some c.endOfLine) : v.line = t.line := by
  induction newer generalizing t with
  | nil =>
    rcases (List.isChain_cons_cons.mp h).1 with hline | ⟨-, hend⟩
    · exact hline.symm
    · exact absurd hend (hnone v (by simp))
  | cons u newer ih =>
    rw [List.cons_append, List.isChain_cons_cons] at h
    rcases h.1 with hline | ⟨-, hend⟩
    · rw [ih h.2 fun w hw => hnone w (List.mem_cons_of_mem u hw), hline]
    · exact absurd hend (hnone u (by simp))

/-- The look back is exact: the one token it reads of the line before is the end of this line. -/
theorem kindOnLine_iff {kind : Kind} (hkind : kind ≠ c.endOfLine)
    (h : (t :: output).IsChain (Above c)) :
    kindOnLine kind t.line output = true ↔ ∃ u ∈ output, u.kind = some kind ∧ u.line = t.line := by
  induction output generalizing t with
  | nil => simp [kindOnLine]
  | cons v older ih =>
    obtain ⟨hv, hold⟩ := List.isChain_cons_cons.mp h
    rw [kindOnLine, Bool.or_eq_true, Bool.and_eq_true, beq_iff_eq, beq_iff_eq]
    rcases hv with hline | ⟨hline, hend⟩
    · rw [hline, ih hold]
      simp
    · have hnone : ∀ u ∈ v :: older, u.line ≠ t.line := by
        intro u hu
        rcases List.mem_cons.mp hu with rfl | hu
        · omega
        · have := line_le_of_chain hold u hu
          omega
      constructor
      · rintro (hv | ⟨hv, _⟩)
        · rw [hend, Option.some.injEq] at hv
          exact absurd hv.symm hkind
        · omega
      · rintro ⟨u, hu, _, hline⟩
        exact absurd hline (hnone u hu)

theorem chain_insert (h : (t :: output).IsChain (Above c))
    (hinserted : ∀ u ∈ inserted, u.line = t.line) :
    (t :: (inserted ++ output)).IsChain (Above c) := by
  induction inserted generalizing t with
  | nil => exact h
  | cons v more ih =>
    have hv := hinserted v (by simp)
    have hmore : ∀ u ∈ more, u.line = v.line := fun u hu => by rw [hinserted u (by simp [hu]), hv]
    rw [List.cons_append]
    refine List.isChain_cons_cons.mpr ⟨Or.inl hv.symm, ih (h.imp_head ?_) hmore⟩
    intro w hw
    unfold Above at hw ⊢
    rwa [hv]

end Chains

/-- What the output of laid tokens looks like: it ends with the token taken last, passes from line
to line at ends of lines, and holds the taken tokens and delimiters. -/
structure Lined (c : Config) (taken : List Token) (s : State) : Prop where
  newest : s.output.head? = taken.getLast?
  chain : s.output.IsChain (Above c)
  added : ∀ t ∈ s.output, t.virtual = true →
    t.kind = some c.openKind ∨ t.kind = some c.separatorKind ∨ t.kind = some c.closeKind
  reals : s.reals = taken.reverse

namespace Lined

variable {c : Config} {m : Margins} {s s' : State} {xs ys : List Token} {t : Token}

theorem initial (c : Config) : Lined c [] State.initial where
  newest := rfl
  chain := List.isChain_nil
  added := by simp [State.initial]
  reals := rfl

/-- To give up a block leaves the output as it is. -/
theorem abandon (h : Lined c xs s) (opener : Token) : Lined c xs (s.abandon opener) :=
  ⟨h.newest, h.chain, h.added, h.reals⟩

theorem chain_cons (hlaid : Laid c m (xs ++ t :: ys)) (h : Lined c xs s) :
    (t :: s.output).IsChain (Above c) := by
  apply h.chain.cons
  intro u hu
  rw [h.newest] at hu
  obtain ⟨front, rfl⟩ := List.getLast?_eq_some_iff.mp hu
  have hlines := hlaid.lines
  rw [List.append_assoc, List.singleton_append] at hlines
  rcases (List.isChain_append_cons_cons.mp hlines).2.1 with hline | hline
  · exact Or.inl hline
  · exact Or.inr hline

theorem chain_started (hlaid : Laid c m (xs ++ t :: ys)) (h : Lined c xs s) (atMargin : Bool) :
    (t :: (s.started c t atMargin).output).IsChain (Above c) := by
  have hcons := h.chain_cons hlaid
  cases atMargin with
  | false => rwa [State.started_false, State.await_output]
  | true =>
    rw [State.started_true, State.startLine_output, State.await_output, State.delimiters_await]
    -- the delimiters stand behind their anchor, which is the last token before the gap
    have hanchor : (t :: (gap c.endOfLine s.output).later).getLast? = some (s.anchor c t) :=
      List.getLast?_cons
    obtain ⟨front, hfront⟩ := List.getLast?_eq_some_iff.mp hanchor
    rw [← gap_append c.endOfLine s.output, ← List.cons_append, hfront, List.append_assoc,
      List.singleton_append] at hcons
    obtain ⟨hleft, hright⟩ := List.isChain_split.mp hcons
    have hdelimiters : ∀ u ∈ s.delimiters c t, u.line = (s.anchor c t).line := by
      intro u hu
      rcases s.mem_delimiters c t hu with rfl | rfl <;> rfl
    rw [← List.cons_append, ← List.cons_append, hfront, List.append_assoc, List.append_assoc,
      List.singleton_append]
    exact List.isChain_split.mpr ⟨hleft, chain_insert hright hdelimiters⟩

theorem added_started (h : Lined c xs s) (atMargin : Bool) :
    ∀ u ∈ (s.started c t atMargin).output, u.virtual = true →
      u.kind = some c.openKind ∨ u.kind = some c.separatorKind ∨ u.kind = some c.closeKind := by
  intro u hu hvirtual
  rcases Step.mem_started atMargin hu with hu | hdelimiter
  · exact h.added u hu hvirtual
  · exact hdelimiter.kind_eq

/-- A binding ends on the line it began on exactly if its first word was read on this line. -/
theorem letOnLine_iff (hc : c.Regular) (hlaid : Laid c m (xs ++ t :: ys)) (h : Lined c xs s)
    (atMargin : Bool) :
    kindOnLine c.letKind t.line (s.started c t atMargin).output = true ↔
      ∃ u ∈ xs, u.kind = some c.letKind ∧ u.line = t.line := by
  have hkind : c.letKind ≠ c.endOfLine := by
    intro heq
    have := hc.code_of_let
    rw [heq, hc.endOfLine_not_code] at this
    contradiction
  rw [kindOnLine_iff hkind (h.chain_started hlaid atMargin)]
  have hreals : (s.started c t atMargin).reals = xs.reverse :=
    (Step.reals_started atMargin).trans h.reals
  constructor
  · rintro ⟨u, hu, hlet, hline⟩
    refine ⟨u, ?_, hlet, hline⟩
    have hreal : u.virtual = false := by
      cases hvirtual : u.virtual with
      | false => rfl
      | true =>
        have := h.added_started atMargin u hu hvirtual
        simp only [hlet, Option.some.injEq, hc.let_ne_open, hc.let_ne_separator, hc.let_ne_close,
          or_false] at this
    rw [← List.mem_reverse, ← hreals]
    exact List.mem_filter.mpr ⟨hu, by simp [hreal]⟩
  · rintro ⟨u, hu, hlet, hline⟩
    rw [← List.mem_reverse, ← hreals] at hu
    exact ⟨u, List.mem_of_mem_filter hu, hlet, hline⟩

/-- The first code of a line ends no binding. -/
theorem endsBinding_of_beginsLine (hc : c.Regular) (hlaid : Laid c m (xs ++ t :: ys))
    (h : Lined c xs s) (hcode : t.code = true) (hbegins : BeginsLine (xs ++ t :: ys) t)
    (atMargin : Bool) : (s.started c t atMargin).endsBinding c t = false := by
  rw [hlaid.beginsLine_iff hcode] at hbegins
  have hnone : kindOnLine c.letKind t.line (s.started c t atMargin).output = false := by
    rw [← Bool.not_eq_true, h.letOnLine_iff hc hlaid]
    rintro ⟨u, hu, hlet, hline⟩
    have hucode : u.code = true := by
      rw [hlaid.code u (List.mem_append_left _ hu), hlet]
      exact hc.code_of_let
    exact hbegins u hu hucode hline
  simp [State.endsBinding, hnone]

/-- Taking `t` keeps the lines, with delimiters right before `t` or without. -/
theorem extend (delimiters : List Token) {out : List Token} (ht : t.virtual = false)
    (houtput : s'.output = t :: (delimiters ++ out))
    (hdelimiters : ∀ u ∈ delimiters, u = .before c.openKind t ∨ u = .before c.closeKind t)
    (hchain : (t :: out).IsChain (Above c))
    (hadded : ∀ u ∈ out, u.virtual = true →
      u.kind = some c.openKind ∨ u.kind = some c.separatorKind ∨ u.kind = some c.closeKind)
    (hreals : s'.reals = t :: xs.reverse) : Lined c (xs ++ [t]) s' where
  newest := by rw [houtput, List.getLast?_concat, List.head?_cons]
  chain := by
    rw [houtput]
    apply chain_insert hchain
    intro u hu
    rcases hdelimiters u hu with rfl | rfl <;> rfl
  added := by
    rw [houtput]
    intro u hu hvirtual
    rcases List.mem_cons.mp hu with rfl | hu
    · simp [ht] at hvirtual
    · rcases List.mem_append.mp hu with hu | hu
      · rcases hdelimiters u hu with rfl | rfl <;> simp [Token.before]
      · exact hadded u hu hvirtual
  reals := by rw [hreals, List.reverse_concat]

theorem step (hlaid : Laid c m (xs ++ t :: ys)) (h : Lined c xs s) (hstep : Step c m s t s') :
    Lined c (xs ++ [t]) s' := by
  have ht : t.virtual = false := hlaid.real t (by simp)
  have hreals : s'.reals = t :: xs.reverse := by rw [hstep.reals_cons ht, h.reals]
  have hproceed (s : State) (h : Lined c xs s) (atMargin : Bool)
      (hreals : (s.proceed c t atMargin).reals = t :: xs.reverse) :
      Lined c (xs ++ [t]) (s.proceed c t atMargin) := by
    refine extend
      (if (s.started c t atMargin).endsBinding c t then [.before c.closeKind t] else []) ht ?_ ?_
      (h.chain_started hlaid atMargin) (h.added_started atMargin) hreals
    · rw [State.proceed, State.emit_output, State.closeLet_output]
      split <;> rfl
    · intro u hu
      split at hu <;> simp_all
  cases hstep with
  | idles _ =>
    exact extend [] ht (by simp) (by simp) (h.chain_cons hlaid) h.added hreals
  | opens _ _ _ =>
    exact extend [.before c.openKind t] ht (by simp) (by simp)
      (h.chain_cons hlaid) h.added hreals
  | passes _ _ _ =>
    exact extend [] ht (by simp) (by simp) (h.chain_cons hlaid) h.added hreals
  | @givesUp opener _ _ _ _ =>
    exact hproceed _ (h.abandon opener) true hreals
  | proceeds _ _ => exact hproceed s h _ hreals

end Lined

end OffsideRule.Layout
