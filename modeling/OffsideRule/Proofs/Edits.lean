import OffsideRule.Proofs.Continuations
import OffsideRule.Proofs.Similarity

/-! Edits that layout does not see. Of a source it sees the kinds of the code, the columns and which
code begins a line (`sights`); these follow from the kinds and lengths of the tokens alone. So what
is no code may be changed where nothing else moves: blanks and comments behind the code of a line,
and whole lines of them. Sources that differ by such edits look alike (`LookAlike`), and resolve to
the same structure. -/

namespace OffsideRule.Layout

/-- Where the next token stands: in which column, and whether no code is before it on its line. -/
structure Spot where
  column : Int
  fresh : Bool
  deriving DecidableEq, Repr

namespace Spot

/-- The front of a line. -/
def lineStart : Spot :=
  ⟨0, true⟩

/-- The spot behind a token. -/
def behind (c : Config) (s : Spot) (t : OffsideRule.Token) : Spot :=
  if t.kind = c.endOfLine then lineStart
  else ⟨s.column + t.text.length, s.fresh && !c.isCode (some t.kind)⟩

end Spot

/-- What layout sees of a code token: whether it begins its line is all it sees of lines. -/
structure Sight where
  kind : Kind
  column : Int
  begins : Bool
  deriving DecidableEq, Repr

/-- The same sight in another column. -/
def Sight.moved (f : Int → Int) (v : Sight) : Sight :=
  { v with column := f v.column }

/-- What layout sees of tokens that stand from a spot on. -/
def sights (c : Config) : Spot → List OffsideRule.Token → List Sight
  | _, [] => []
  | s, t :: more =>
    let later := sights c (s.behind c t) more
    if c.isCode (some t.kind) then ⟨t.kind, s.column, s.fresh⟩ :: later else later

section Sights

variable {c : Config} {s : Spot}

theorem sights_append (xs ys : List OffsideRule.Token) :
    sights c s (xs ++ ys) = sights c s xs ++ sights c (xs.foldl (Spot.behind c) s) ys := by
  induction xs generalizing s with
  | nil => rfl
  | cons t more ih =>
    rw [List.cons_append, sights, sights, ih, List.foldl_cons]
    split
    · rw [List.cons_append]
    · rfl

theorem sights_of_not_code {xs : List OffsideRule.Token}
    (h : ∀ t ∈ xs, c.isCode (some t.kind) = false) : sights c s xs = [] := by
  induction xs generalizing s with
  | nil => rfl
  | cons t more ih =>
    rw [sights, h t (by simp)]
    exact ih fun u hu => h u (by simp [hu])

/-- Kinds and texts are all that counts. -/
theorem sights_congr {xs ys : List OffsideRule.Token}
    (h : xs.map OffsideRule.Token.content = ys.map OffsideRule.Token.content) :
    sights c s xs = sights c s ys ∧ xs.foldl (Spot.behind c) s = ys.foldl (Spot.behind c) s := by
  induction xs generalizing s ys with
  | nil =>
    obtain rfl := List.map_eq_nil_iff.mp h.symm
    exact ⟨rfl, rfl⟩
  | cons t more ih =>
    obtain ⟨u, more', rfl, hu, hmore⟩ := List.map_eq_cons_iff.mp h.symm
    obtain ⟨hkind, htext⟩ : u.kind = t.kind ∧ u.text = t.text := Prod.mk.inj hu
    have hbehind : s.behind c u = s.behind c t := by rw [Spot.behind, Spot.behind, hkind, htext]
    obtain ⟨hsights, hspot⟩ := ih (s := s.behind c t) hmore.symm
    rw [sights, sights, List.foldl_cons, List.foldl_cons, hbehind, hkind, hsights, hspot]
    exact ⟨rfl, rfl⟩

/-- An end of line leaves nothing of the spot before it. -/
theorem sights_of_endOfLine (hc : c.isCode (some c.endOfLine) = false) (s s' : Spot)
    {xs : List OffsideRule.Token} (h : ∀ t ∈ xs.head?, t.kind = c.endOfLine) :
    sights c s xs = sights c s' xs := by
  cases xs with
  | nil => rfl
  | cons t more =>
    have hkind : t.kind = c.endOfLine := h t rfl
    rw [sights, sights, Spot.behind, Spot.behind, if_pos hkind, if_pos hkind, hkind, hc]
    rfl

end Sights

/-- What layout takes over of a token of the text. -/
def rawToken (t : OffsideRule.Token) : Raw :=
  ⟨some t.kind, t.start.offset, t.stop.offset⟩

/-- The placed token `t` of the input is seen as `v`. -/
def Shows (input : List Token) (t : Token) (v : Sight) : Prop :=
  t.kind = some v.kind ∧ t.column = v.column ∧ (BeginsLine input t ↔ v.begins = true)

/-- The spot is the end of the last line of the tokens that were placed. -/
structure Leaves (placed : List Token) (m : Margins) (s : Spot) : Prop where
  lines : ∀ u ∈ placed, u.line ≤ m.lastLine
  fresh : s.fresh = true ↔ ∀ u ∈ placed, u.code = true → u.line ≠ m.lastLine

section Placed

variable {c : Config} {m m₀ : Margins} {s : Spot} {xs body : List Token} {atEnd : Token}
  {t : OffsideRule.Token}

theorem columnBehind_eq (ht : (t.stop.offset : Int) - t.start.offset = t.text.length) :
    Placement.columnBehind c s.column (rawToken t) = (s.behind c t).column := by
  unfold Placement.columnBehind Spot.behind rawToken
  by_cases hkind : t.kind = c.endOfLine
  · simp [hkind, Spot.lineStart]
  · simp [hkind, ht]

theorem Leaves.step (h : Leaves xs m s) {u : Token} (hline : u.line = m.lastLine)
    (hcode : u.code = c.isCode (some t.kind)) :
    Leaves (xs ++ [u]) (Placement.marginsBehind c s.column m (rawToken t)) (s.behind c t) := by
  have hbehind : (Placement.marginsBehind c s.column m (rawToken t)).lastLine =
      if t.kind = c.endOfLine then m.lastLine + 1 else m.lastLine := by
    rw [Placement.lastLine_marginsBehind]
    simp [rawToken]
  have hlines : ∀ v ∈ xs ++ [u], v.line ≤ m.lastLine := by
    intro v hv
    rcases List.mem_append.mp hv with hv | hv
    · exact h.lines v hv
    · rw [List.mem_singleton.mp hv, hline]
  by_cases hkind : t.kind = c.endOfLine
  · rw [if_pos hkind] at hbehind
    refine ⟨fun v hv => ?_, ?_⟩
    · have := hlines v hv
      omega
    · rw [Spot.behind, if_pos hkind, hbehind]
      refine ⟨fun _ v hv _ => ?_, fun _ => rfl⟩
      have := hlines v hv
      omega
  · rw [if_neg hkind] at hbehind
    refine ⟨fun v hv => hbehind ▸ hlines v hv, ?_⟩
    rw [Spot.behind, if_neg hkind, hbehind, Bool.and_eq_true, h.fresh, ← hcode]
    constructor
    · rintro ⟨hxs, hu⟩ v hv hvcode
      rcases List.mem_append.mp hv with hv | hv
      · exact hxs v hv hvcode
      · rw [List.mem_singleton.mp hv] at hvcode
        simp [hvcode] at hu
    · intro hall
      refine ⟨fun v hv => hall v (by simp [hv]), ?_⟩
      cases hucode : u.code with
      | false => rfl
      | true => exact absurd hline (hall u (by simp) hucode)

/-- What is placed from a spot on is seen from there. -/
theorem shows_run (hlaid : Laid c m₀ body) (hend : atEnd.code = false) (bufferEnd : Int)
    {front : List OffsideRule.Token}
    (hfront : ∀ t ∈ front, (t.stop.offset : Int) - t.start.offset = t.text.length)
    (hleaves : Leaves xs m s)
    (hsplit : xs ++ (Placement.run c bufferEnd s.column m (front.map rawToken)).tokens =
      body ++ [atEnd]) :
    List.Forall₂ (Shows (body ++ [atEnd]))
      ((Placement.run c bufferEnd s.column m (front.map rawToken)).tokens.filter (·.code))
      (sights c s front) := by
  induction front generalizing s m xs with
  | nil => exact .nil
  | cons t more ih =>
    rw [List.map_cons, Placement.run_cons, columnBehind_eq (hfront t (by simp))] at hsplit ⊢
    generalize hu : Token.mk (rawToken t).kind (rawToken t).start (rawToken t).stop s.column
      m.lastLine (c.isCode (rawToken t).kind) false = u at hsplit ⊢
    have hcode : u.code = c.isCode (some t.kind) := by rw [← hu]; rfl
    have hline : u.line = m.lastLine := by rw [← hu]
    have hmore := ih (fun v hv => hfront v (by simp [hv])) (hleaves.step hline hcode)
      (by simpa using hsplit)
    rw [sights, ← hcode]
    cases hucode : u.code with
    | false =>
      rw [List.filter_cons_of_neg (by simp [hucode])]
      exact hmore
    | true =>
      rw [List.filter_cons_of_pos hucode]
      refine .cons ⟨by rw [← hu]; rfl, by rw [← hu], ?_⟩ hmore
      obtain ⟨later, last, hlater, -⟩ := Placement.run_tokens c bufferEnd (s.behind c t).column
        (Placement.marginsBehind c s.column m (rawToken t)) (more.map rawToken)
      simp only [hlater] at hsplit
      obtain ⟨rfl, -⟩ : xs ++ u :: later = body ∧ last = atEnd := by
        rw [← List.cons_append, ← List.append_assoc] at hsplit
        simpa using List.append_inj' hsplit rfl
      rw [beginsLine_concat hend, hlaid.beginsLine_iff hucode, hline]
      exact hleaves.fresh.symm

/-- The code of a source is seen in the columns that its tokens leave. -/
theorem shows_placed (c : Config) {source : Text} {front : List OffsideRule.Token} {p : Position}
    (h : Reads (.start source) front ⟨p, []⟩) :
    List.Forall₂ (Shows (placed c source (front ++ [.ending p])))
      ((placed c source (front ++ [.ending p])).filter (·.code)) (sights c .lineStart front) := by
  obtain ⟨m, body, atEnd, -, hplaced, hlaid, hend, -⟩ :=
    resolveText_eq c (tokenize_of_nil h rfl)
  have hwidths : ∀ t ∈ front, (t.stop.offset : Int) - t.start.offset = t.text.length := by
    intro t ht
    rw [h.tiles.stop_eq t ht, Position.offset_advance]
    omega
  have hraws : rawTokens (front ++ [.ending p]) = front.map rawToken := rawTokens_concat front _
  have hrun : (Placement.run c source.length Spot.lineStart.column Margins.empty.newLine
      (front.map rawToken)).tokens = body ++ [atEnd] := by
    rw [← hplaced, placed, place, hraws]
    rfl
  have hleaves : Leaves [] Margins.empty.newLine .lineStart :=
    ⟨by simp, by simp [Spot.lineStart]⟩
  have hshows := shows_run hlaid hend.2.1 source.length hwidths hleaves hrun
  rwa [hrun, ← hplaced] at hshows

end Placed

/-- Both sources can be read, and layout cannot tell the code of one from that of the other, where
`f` carries the columns of the first to those of the second. -/
def LookAlike (c : Config) (f : Int → Int) (source₁ source₂ : Text) : Prop :=
  ∃ tokens₁ tokens₂, tokenize source₁ = .ok tokens₁ ∧ tokenize source₂ = .ok tokens₂ ∧
    Increasing f (codeColumns (placed c source₁ tokens₁)) ∧
    List.Forall₂ (Corresponds f (placed c source₁ tokens₁) (placed c source₂ tokens₂))
      ((placed c source₁ tokens₁).filter (·.code)) ((placed c source₂ tokens₂).filter (·.code))

section

variable {c : Config} {f : Int → Int} {source₁ source₂ : Text}
  {tokens₁ tokens₂ : List OffsideRule.Token} {p₁ p₂ : Position}

theorem forall₂_corresponds {input₁ input₂ codes₁ codes₂ : List Token} {seen : List Sight}
    (h₁ : List.Forall₂ (Shows input₁) codes₁ seen)
    (h₂ : List.Forall₂ (Shows input₂) codes₂ (seen.map (·.moved f))) :
    List.Forall₂ (Corresponds f input₁ input₂) codes₁ codes₂ := by
  induction h₁ generalizing codes₂ with
  | nil =>
    cases h₂
    exact .nil
  | @cons t₁ v codes₁ seen hshows₁ _ ih =>
    rw [List.map_cons] at h₂
    cases h₂ with
    | cons hshows₂ hmore =>
      obtain ⟨hkind₁, hcolumn₁, hbegins₁⟩ := hshows₁
      obtain ⟨hkind₂, hcolumn₂, hbegins₂⟩ := hshows₂
      refine .cons ⟨hkind₁.trans hkind₂.symm, hbegins₁.trans hbegins₂.symm, ?_⟩ (ih hmore)
      rw [hcolumn₁, hcolumn₂, Sight.moved]

/-- Sources that look alike resolve to the same structure, and give up as many blocks. -/
theorem LookAlike.resolveText (hc : c.Variant) (h : LookAlike c f source₁ source₂) :
    ∃ r₁ r₂, Layout.resolveText c source₁ = .ok r₁ ∧ Layout.resolveText c source₂ = .ok r₂ ∧
      skeleton r₁.tokens = skeleton r₂.tokens ∧ r₁.warnings.length = r₂.warnings.length := by
  obtain ⟨tokens₁, tokens₂, h₁, h₂, hf, hcodes⟩ := h
  obtain ⟨m₁, body₁, atEnd₁, s₁, hplace₁, hlaid₁, hend₁, hrun₁, hresolve₁⟩ := resolveText_eq c h₁
  obtain ⟨m₂, body₂, atEnd₂, s₂, hplace₂, hlaid₂, hend₂, hrun₂, hresolve₂⟩ := resolveText_eq c h₂
  rw [hplace₁] at hf hcodes
  rw [hplace₂] at hcodes
  obtain ⟨g, known, hsimilar⟩ := exists_similar_of_inputs hc.regular hlaid₁ hlaid₂ hend₁.2.1
    hend₂.2.1 hf hcodes hrun₁ hrun₂
  obtain ⟨given, _, _, _, _, hwarnings₁, hwarnings₂⟩ := hsimilar.warned
  refine ⟨_, _, hresolve₁, hresolve₂, ?_, ?_⟩
  · rw [Resolution.ofState, Resolution.ofState, skeleton_reverse, skeleton_reverse,
      hsimilar.skeleton_finish hend₁.2 hend₂.2]
  · rw [Resolution.ofState, Resolution.ofState, State.finish_warnings, State.finish_warnings,
      hwarnings₁, hwarnings₂]
    simp

/-- Sources look alike if they show the same code in columns of the same order. -/
theorem lookAlike_of_sights (hf : ∀ x y, x < y → f x < f y)
    (h₁ : Reads (.start source₁) tokens₁ ⟨p₁, []⟩) (h₂ : Reads (.start source₂) tokens₂ ⟨p₂, []⟩)
    (h : sights c .lineStart tokens₂ = (sights c .lineStart tokens₁).map (·.moved f)) :
    LookAlike c f source₁ source₂ := by
  refine ⟨_, _, tokenize_of_nil h₁ rfl, tokenize_of_nil h₂ rfl, fun x _ y _ => hf x y, ?_⟩
  have hshows₂ := shows_placed c h₂
  rw [h] at hshows₂
  exact forall₂_corresponds (shows_placed c h₁) hshows₂

theorem map_moved_id (seen : List Sight) : seen.map (·.moved id) = seen :=
  List.map_id seen

/-- Tokens that are no code may be put in, taken out or exchanged where the next token keeps its
spot, and also where the line ends behind them. -/
theorem lookAlike_of_edit (hc : c.isCode (some c.endOfLine) = false)
    {front₁ front₂ mid₁ mid₂ back₁ back₂ : List OffsideRule.Token}
    (h₁ : Reads (.start source₁) (front₁ ++ (mid₁ ++ back₁)) ⟨p₁, []⟩)
    (h₂ : Reads (.start source₂) (front₂ ++ (mid₂ ++ back₂)) ⟨p₂, []⟩)
    (hfront : front₁.map OffsideRule.Token.content = front₂.map OffsideRule.Token.content)
    (hback : back₁.map OffsideRule.Token.content = back₂.map OffsideRule.Token.content)
    (hmid₁ : ∀ t ∈ mid₁, c.isCode (some t.kind) = false)
    (hmid₂ : ∀ t ∈ mid₂, c.isCode (some t.kind) = false)
    (hspot : (front₁ ++ mid₁).foldl (Spot.behind c) .lineStart =
        (front₂ ++ mid₂).foldl (Spot.behind c) .lineStart ∨
      ∀ t ∈ back₁.head?, t.kind = c.endOfLine) :
    LookAlike c id source₁ source₂ := by
  refine lookAlike_of_sights (fun _ _ => id) h₁ h₂ ?_
  obtain ⟨hsights, -⟩ := sights_congr (c := c) (s := .lineStart) hfront
  have hsame (s : Spot) : sights c s back₁ = sights c s back₂ := (sights_congr hback).1
  rw [map_moved_id, sights_append, sights_append, sights_append, sights_append,
    sights_of_not_code hmid₁, sights_of_not_code hmid₂, hsights, ← List.foldl_append,
    ← List.foldl_append, ← hsame]
  rcases hspot with hspot | hend
  · rw [hspot]
  · rw [sights_of_endOfLine hc _ _ hend]

/-- The text is read as whole lines: if it has tokens, the last one ends a line. -/
structure WholeLines (s : Text) (tokens : List OffsideRule.Token) : Prop where
  reads : ∃ q, Reads (.start s) tokens ⟨q, []⟩
  last : ∀ t ∈ tokens.getLast?, t.kind = .newline

theorem WholeLines.append {s : Text} (h : WholeLines s tokens₁) (p : Position) (y : Text) :
    ∃ moved q, Reads ⟨p, s ++ y⟩ moved ⟨q, y⟩ ∧
      moved.map OffsideRule.Token.content = tokens₁.map OffsideRule.Token.content := by
  obtain ⟨⟨q, hreads⟩, hlast⟩ := h
  have hs : s = tokens₁.flatMap OffsideRule.Token.text := by
    have hrest := hreads.rest_eq
    rwa [List.append_nil] at hrest
  obtain ⟨moved, q', hmoved, hcontent⟩ := (hreads.append_lines hlast y).relocate p
  exact ⟨moved, q', hs ▸ hmoved, hcontent⟩

/-- What follows whole lines begins a line, if there are any or they begin one. -/
theorem WholeLines.spot (hc : c.Variant) {s : Text} (h : WholeLines s tokens₁)
    (hcontent : tokens₂.map OffsideRule.Token.content = tokens₁.map OffsideRule.Token.content)
    {spot : Spot} (hspot : tokens₁ = [] → spot = .lineStart) :
    tokens₂.foldl (Spot.behind c) spot = .lineStart := by
  rw [(sights_congr hcontent).2]
  cases htokens : tokens₁.getLast? with
  | none =>
    obtain rfl := List.getLast?_eq_none_iff.mp htokens
    exact hspot rfl
  | some t =>
    have hkind : t.kind = c.endOfLine := (h.last t htokens).trans hc.kinds.1.symm
    obtain ⟨front, rfl⟩ := List.getLast?_eq_some_iff.mp htokens
    rw [List.foldl_append, List.foldl_cons, List.foldl_nil, Spot.behind, if_pos hkind]

theorem not_code_of_content
    (hcontent : tokens₂.map OffsideRule.Token.content = tokens₁.map OffsideRule.Token.content)
    (h : ∀ t ∈ tokens₁, c.isCode (some t.kind) = false) :
    ∀ t ∈ tokens₂, c.isCode (some t.kind) = false := by
  intro t ht
  have hmem : t.content ∈ tokens₁.map OffsideRule.Token.content :=
    hcontent ▸ List.mem_map_of_mem ht
  obtain ⟨t', ht', hsame⟩ := List.mem_map.mp hmem
  rw [← (Prod.mk.inj hsame).1]
  exact h t' ht'

/-- Between whole lines and what follows them, whole lines without code may be put in. -/
theorem lookAlike_of_lines (hc : c.Variant) {u w v : Text} {us ws vs : List OffsideRule.Token}
    {q : Position} (hu : WholeLines u us) (hw : WholeLines w ws)
    (hcode : ∀ t ∈ ws, c.isCode (some t.kind) = false) (hv : Reads (.start v) vs ⟨q, []⟩) :
    LookAlike c id (u ++ v) (u ++ (w ++ v)) := by
  obtain ⟨us₁, q₁, hus₁, hcontent₁⟩ := hu.append .origin v
  obtain ⟨us₂, q₂, hus₂, hcontent₂⟩ := hu.append .origin (w ++ v)
  obtain ⟨ws', q₃, hws', hcontent₃⟩ := hw.append q₂ v
  obtain ⟨vs₁, q₄, hvs₁, hcontent₄⟩ := hv.relocate q₁
  obtain ⟨vs₂, q₅, hvs₂, hcontent₅⟩ := hv.relocate q₃
  have hwithout : Reads (.start (u ++ v)) (us₁ ++ ([] ++ vs₁)) ⟨q₄, []⟩ := hus₁.append hvs₁
  have hspot₂ := hu.spot hc hcontent₂ fun _ => rfl
  refine lookAlike_of_edit hc.regular.endOfLine_not_code hwithout
    (hus₂.append (hws'.append hvs₂)) (hcontent₁.trans hcontent₂.symm)
    (hcontent₄.trans hcontent₅.symm) (by simp) (not_code_of_content hcontent₃ hcode) (Or.inl ?_)
  rw [List.append_nil, List.foldl_append, hu.spot hc hcontent₁ fun _ => rfl, hspot₂,
    hw.spot hc hcontent₃ fun _ => rfl]

/-- The text is read as the rest of a line, and maybe further lines, that hold no code. A blank or
the line end comes first. -/
structure LineRest (c : Config) (s : Text) (tokens : List OffsideRule.Token) : Prop
    extends WholeLines s tokens where
  nonempty : tokens ≠ []
  stops : Stops s
  code : ∀ t ∈ tokens, c.isCode (some t.kind) = false

theorem LineRest.stops_append {s : Text} (h : LineRest c s tokens₁) (v : Text) :
    Stops (s ++ v) := by
  obtain ⟨q, hreads⟩ := h.reads
  cases hreads with
  | refl => exact absurd rfl h.nonempty
  | step hheads _ =>
    obtain ⟨d, more, rfl⟩ := List.exists_cons_of_ne_nil hheads.ne_nil
    exact h.stops

section LineEnds

variable {u v w₁ w₂ : Text} {us vs ws₁ ws₂ : List OffsideRule.Token} {p q : Position}

/-- What follows the code of a line up to the line end, blanks and comments, may be exchanged. -/
theorem lookAlike_of_lineRest (hc : c.Variant) (hu : Reads (.start u) us ⟨p, []⟩)
    (hlast : ∀ t ∈ us.getLast?, t.kind ≠ .blank ∧ t.kind ≠ .lineComment)
    (hw₁ : LineRest c w₁ ws₁) (hw₂ : LineRest c w₂ ws₂) (hv : Reads (.start v) vs ⟨q, []⟩) :
    LookAlike c id (u ++ (w₁ ++ v)) (u ++ (w₂ ++ v)) := by
  have hus₁ : Reads (.start (u ++ (w₁ ++ v))) us ⟨p, w₁ ++ v⟩ :=
    hu.append_stop rfl hlast (hw₁.stops_append v)
  have hus₂ : Reads (.start (u ++ (w₂ ++ v))) us ⟨p, w₂ ++ v⟩ :=
    hu.append_stop rfl hlast (hw₂.stops_append v)
  obtain ⟨ws₁', q₁, hws₁, hcontent₁⟩ := hw₁.append p v
  obtain ⟨ws₂', q₂, hws₂, hcontent₂⟩ := hw₂.append p v
  obtain ⟨vs₁, q₃, hvs₁, hcontent₃⟩ := hv.relocate q₁
  obtain ⟨vs₂, q₄, hvs₂, hcontent₄⟩ := hv.relocate q₂
  refine lookAlike_of_edit hc.regular.endOfLine_not_code (hus₁.append (hws₁.append hvs₁))
    (hus₂.append (hws₂.append hvs₂)) rfl (hcontent₃.trans hcontent₄.symm)
    (not_code_of_content hcontent₁ hw₁.code) (not_code_of_content hcontent₂ hw₂.code) (Or.inl ?_)
  rw [List.foldl_append, List.foldl_append,
    hw₁.spot hc hcontent₁ fun hnil => absurd hnil hw₁.nonempty,
    hw₂.spot hc hcontent₂ fun hnil => absurd hnil hw₂.nonempty]

/-- The same behind the last code of a source, where the line need not end. -/
theorem lookAlike_of_lastRest (hc : c.Variant) (hu : Reads (.start u) us ⟨p, []⟩)
    (hlast : ∀ t ∈ us.getLast?, t.kind ≠ .blank ∧ t.kind ≠ .lineComment)
    (hw₁ : Reads (.start w₁) ws₁ ⟨q, []⟩) {q' : Position} (hw₂ : Reads (.start w₂) ws₂ ⟨q', []⟩)
    (hstops₁ : Stops w₁) (hstops₂ : Stops w₂) (hcode₁ : ∀ t ∈ ws₁, c.isCode (some t.kind) = false)
    (hcode₂ : ∀ t ∈ ws₂, c.isCode (some t.kind) = false) :
    LookAlike c id (u ++ w₁) (u ++ w₂) := by
  have hus₁ : Reads (.start (u ++ w₁)) us ⟨p, w₁⟩ := hu.append_stop rfl hlast hstops₁
  have hus₂ : Reads (.start (u ++ w₂)) us ⟨p, w₂⟩ := hu.append_stop rfl hlast hstops₂
  obtain ⟨ws₁', q₁, hws₁, hcontent₁⟩ := hw₁.relocate p
  obtain ⟨ws₂', q₂, hws₂, hcontent₂⟩ := hw₂.relocate p
  have hread₁ : Reads (.start (u ++ w₁)) (us ++ (ws₁' ++ [])) ⟨q₁, []⟩ :=
    hus₁.append (hws₁.append (.refl _))
  have hread₂ : Reads (.start (u ++ w₂)) (us ++ (ws₂' ++ [])) ⟨q₂, []⟩ :=
    hus₂.append (hws₂.append (.refl _))
  exact lookAlike_of_edit hc.regular.endOfLine_not_code hread₁ hread₂ rfl rfl
    (not_code_of_content hcontent₁ hcode₁) (not_code_of_content hcontent₂ hcode₂)
    (Or.inr (by simp))

end LineEnds

end

end OffsideRule.Layout
