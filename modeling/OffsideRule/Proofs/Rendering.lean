import Mathlib.Data.List.Forall2
import OffsideRule.Layout.Render

/-! What dumps tell of the tokens. In the table and in the JSON array each field ends before a
character that it cannot hold, however long it grows and whatever its padding, and where a token ends
no other one goes on. So lists of tokens that are written alike agree in all that is written of them,
which is all but whether they are code. -/

namespace OffsideRule

section Characters

variable {n : Int} {c : Char}

/-- Numbers are written with digits and a sign. -/
theorem isDigit_of_mem_toString (hc : c ∈ (toString n).toList) : c.isDigit = true ∨ c = '-' := by
  have hnat (m : Nat) (hm : c ∈ (Nat.repr m).toList) : c.isDigit = true := by
    rw [Nat.toList_repr] at hm
    exact Nat.isDigit_of_mem_toDigits (by decide) (by decide) hm
  cases n with
  | ofNat m => exact Or.inl (hnat m hc)
  | negSucc m =>
    have hc : c ∈ ("-" ++ Nat.repr (m + 1)).toList := hc
    rw [String.toList_append, List.mem_append] at hc
    rcases hc with hc | hc
    · exact Or.inr (by simpa using hc)
    · exact Or.inl (hnat (m + 1) hc)

theorem toString_ne_nil (n : Int) : (toString n).toList ≠ [] := by
  intro h
  cases n with
  | ofNat m => exact Nat.toDigits_ne_nil (Nat.toList_repr.symm.trans h)
  | negSucc m =>
    have h : ("-" ++ Nat.repr (m + 1)).toList = [] := h
    simp at h

theorem repr_injective {m n : Nat} (h : (Nat.repr m).toList = (Nat.repr n).toList) : m = n := by
  rw [Nat.toList_repr, Nat.toList_repr] at h
  rw [← Nat.ofDigitChars_ten_toDigits (n := m), h, Nat.ofDigitChars_ten_toDigits]

theorem toString_injective {m n : Int} (h : (toString m).toList = (toString n).toList) : m = n := by
  have hnegative (m : Nat) :
      (toString (Int.negSucc m)).toList = '-' :: (Nat.repr (m + 1)).toList := by
    rw [show toString (Int.negSucc m) = "-" ++ Nat.repr (m + 1) from rfl, String.toList_append]
    rfl
  -- a number that is not negative has no sign
  have hsigned (m k : Nat) :
      (toString (Int.ofNat m)).toList ≠ (toString (Int.negSucc k)).toList := by
    intro h
    have hmem : '-' ∈ (Nat.repr m).toList := by
      rw [show Nat.repr m = toString (Int.ofNat m) from rfl, h, hnegative]
      exact List.mem_cons_self
    rw [Nat.toList_repr] at hmem
    exact absurd (Nat.isDigit_of_mem_toDigits (by decide) (by decide) hmem) (by decide)
  cases m with
  | ofNat m =>
    cases n with
    | ofNat n => rw [repr_injective h]
    | negSucc n => exact absurd h (hsigned m n)
  | negSucc m =>
    cases n with
    | ofNat n => exact absurd h.symm (hsigned n m)
    | negSucc n =>
      rw [hnegative, hnegative, List.cons.injEq] at h
      rw [Nat.succ.inj (repr_injective h.2)]

theorem not_mem_toString (hdigit : c.isDigit = false) (hsign : c ≠ '-') :
    c ∉ (toString n).toList := by
  intro hc
  rcases isDigit_of_mem_toString hc with h | h
  · rw [hdigit] at h
    contradiction
  · exact hsign h

/-- Names of kinds are written with capital letters and underscores. -/
theorem Kind.isUpper_of_mem_name (k : Kind) :
    ∀ c ∈ k.name.toList, c.isUpper = true ∨ c = '_' := by
  cases k with
  | keyword k => cases k <;> simp [name, Keyword.name]
  | _ => simp [name]

theorem Kind.name_injective {k k' : Kind} (h : k.name = k'.name) : k = k' := by
  apply Option.some.inj
  rw [← ofName?_name k, h, ofName?_name]

end Characters

section Fields

variable {d : Char} {rest rest' : Text}

/-- Words can be told apart from what follows them at a character that they do not hold. -/
theorem word_unique {w w' : Text} (hw : d ∉ w) (hw' : d ∉ w')
    (h : w ++ d :: rest = w' ++ d :: rest') : w = w' ∧ rest = rest' := by
  induction w generalizing w' with
  | nil =>
    cases w' with
    | nil => exact ⟨rfl, (List.cons_eq_cons.mp h).2⟩
    | cons c more =>
      obtain ⟨rfl, -⟩ := List.cons_eq_cons.mp h
      simp at hw'
  | cons c more ih =>
    cases w' with
    | nil =>
      obtain ⟨rfl, -⟩ := List.cons_eq_cons.mp h
      simp at hw
    | cons c' more' =>
      obtain ⟨rfl, hmore⟩ := List.cons_eq_cons.mp h
      obtain ⟨rfl, hrest⟩ := ih (fun hd => hw (by simp [hd])) (fun hd => hw' (by simp [hd])) hmore
      exact ⟨rfl, hrest⟩

theorem number_unique {m n : Int} (hdigit : d.isDigit = false) (hsign : d ≠ '-')
    (h : (toString m).toList ++ d :: rest = (toString n).toList ++ d :: rest') :
    m = n ∧ rest = rest' := by
  obtain ⟨hnumber, hrest⟩ :=
    word_unique (not_mem_toString hdigit hsign) (not_mem_toString hdigit hsign) h
  exact ⟨toString_injective hnumber, hrest⟩

theorem dropWhile_blanks (n : Nat) {s : Text} (hs : s.head? ≠ some ' ') :
    (List.replicate n ' ' ++ s).dropWhile (· = ' ') = s := by
  induction n with
  | zero =>
    cases s with
    | nil => rfl
    | cons c more =>
      have hc : c ≠ ' ' := by simpa using hs
      simp [hc]
  | succ n ih => simpa [List.replicate_succ] using ih

theorem head?_number (n : Int) (rest : Text) : ((toString n).toList ++ rest).head? ≠ some ' ' := by
  have hblank : ' ' ∉ (toString n).toList := not_mem_toString (by decide) (by decide)
  cases hn : (toString n).toList with
  | nil => exact absurd hn (toString_ne_nil n)
  | cons c more =>
    rw [hn, List.mem_cons, not_or] at hblank
    rw [List.cons_append, List.head?_cons, ne_eq, Option.some.injEq]
    exact Ne.symm hblank.1

/-- Padding on the left makes no difference. -/
theorem padded_unique {width : Nat} {m n : Int} (hdigit : d.isDigit = false) (hsign : d ≠ '-')
    (h : (padLeft width (toString m)).toList ++ d :: rest =
      (padLeft width (toString n)).toList ++ d :: rest') : m = n ∧ rest = rest' := by
  simp only [padLeft, String.toList_append, String.toList_ofList, List.append_assoc] at h
  have hdrop := congrArg (List.dropWhile (· = ' ')) h
  rw [dropWhile_blanks _ (head?_number m _), dropWhile_blanks _ (head?_number n _)] at hdrop
  exact number_unique hdigit hsign hdrop

end Fields

namespace Layout

/-- The tokens agree in all that is written of them. -/
structure Token.Alike (a b : Token) : Prop where
  kind_eq : a.kind = b.kind
  start_eq : a.start = b.start
  stop_eq : a.stop = b.stop
  column_eq : a.column = b.column
  line_eq : a.line = b.line
  virtual_eq : a.virtual = b.virtual

section Names

variable {a b : Token} {d : Char} {rest rest' : Text}

/-- The missing kind is written as the kind of the end of a source. -/
theorem Token.name_eq (t : Token) : t.name = (t.kind.getD .endOfInput).name := by
  cases h : t.kind <;> simp [name, h, Kind.name]

theorem Token.kind_of_name (ha : a.kind ≠ some .endOfInput) (hb : b.kind ≠ some .endOfInput)
    (h : a.name = b.name) : a.kind = b.kind := by
  rw [name_eq, name_eq] at h
  have hkind := Kind.name_injective h
  cases hak : a.kind <;> cases hbk : b.kind <;> simp_all

theorem not_mem_name (t : Token) (hupper : d.isUpper = false) (hscore : d ≠ '_') :
    d ∉ t.name.toList := by
  intro hd
  rw [t.name_eq] at hd
  rcases Kind.isUpper_of_mem_name _ d hd with h | h
  · rw [hupper] at h
    contradiction
  · exact hscore h

theorem name_unique (hupper : d.isUpper = false) (hscore : d ≠ '_')
    (h : a.name.toList ++ d :: rest = b.name.toList ++ d :: rest') :
    a.name = b.name ∧ rest = rest' := by
  obtain ⟨hname, hrest⟩ :=
    word_unique (not_mem_name a hupper hscore) (not_mem_name b hupper hscore) h
  exact ⟨String.toList_inj.mp hname, hrest⟩

/-- The name in its column of the table. -/
theorem padded_name_unique {width : Nat}
    (h : (padRight width a.name).toList ++ ' ' :: rest =
      (padRight width b.name).toList ++ ' ' :: rest') : a.name = b.name ∧ rest = rest' := by
  have hblank (n : Nat) (s : Text) :
      List.replicate n ' ' ++ ' ' :: s = ' ' :: (List.replicate n ' ' ++ s) := by
    rw [← List.cons_append, ← List.replicate_succ, List.replicate_succ', List.append_assoc]
    rfl
  simp only [padRight, String.toList_append, String.toList_ofList, List.append_assoc, hblank] at h
  obtain ⟨hname, hpad⟩ := name_unique (by decide) (by decide) h
  rw [hname] at hpad
  exact ⟨hname, List.append_cancel_left hpad⟩

end Names

section Rows

variable {a b : Token} {rest rest' : Text}

theorem marker_unique {v v' : Bool}
    (h : (if v then "*" else " ").toList ++ rest = (if v' then "*" else " ").toList ++ rest') :
    v = v' ∧ rest = rest' := by
  cases v <;> cases v' <;> simp_all

/-- What follows a row is told apart at the line feed. -/
theorem row_unique (ha : a.kind ≠ some .endOfInput) (hb : b.kind ≠ some .endOfInput)
    (h : a.row.toList ++ '\n' :: rest = b.row.toList ++ '\n' :: rest') :
    a.Alike b ∧ rest = rest' := by
  have hblank : " ".toList = [' '] := rfl
  have hcolumn : "  col=".toList = ' ' :: " col=".toList := rfl
  have hline : " line=".toList = ' ' :: "line=".toList := rfl
  simp only [Token.row, String.toList_append, List.append_assoc, hblank, hcolumn, hline,
    List.cons_append, List.nil_append] at h
  obtain ⟨hvirtual, h⟩ := marker_unique h
  obtain ⟨hname, h⟩ := padded_name_unique h
  obtain ⟨hstart, h⟩ := padded_unique (by decide) (by decide) h
  obtain ⟨hstop, h⟩ := padded_unique (by decide) (by decide) h
  obtain ⟨hcolumn, h⟩ := number_unique (by decide) (by decide) (List.append_cancel_left h)
  obtain ⟨hline, h⟩ := number_unique (by decide) (by decide) (List.append_cancel_left h)
  exact ⟨⟨Token.kind_of_name ha hb hname, hstart, hstop, hcolumn, hline, hvirtual⟩, h⟩

theorem truth_unique {v v' : Bool}
    (h : (if v then "true" else "false").toList ++ rest =
      (if v' then "true" else "false").toList ++ rest') : v = v' ∧ rest = rest' := by
  cases v with
  | true =>
    cases v' with
    | true => exact ⟨rfl, List.append_cancel_left h⟩
    | false => cases h
  | false =>
    cases v' with
    | true => cases h
    | false => exact ⟨rfl, List.append_cancel_left h⟩

/-- An object tells where it ends. -/
theorem object_unique (ha : a.kind ≠ some .endOfInput) (hb : b.kind ≠ some .endOfInput)
    (h : a.json.toList ++ rest = b.json.toList ++ rest') : a.Alike b ∧ rest = rest' := by
  have hquote : "\",\n".toList = '"' :: ",\n".toList := rfl
  have hcomma : ",\n".toList = ',' :: "\n".toList := rfl
  unfold Token.json at h
  simp only [String.toList_append, List.append_assoc, hquote, List.cons_append,
    List.append_cancel_left_eq] at h
  obtain ⟨hname, h⟩ := name_unique (by decide) (by decide) h
  simp only [hcomma, List.cons_append, List.cons.injEq, true_and, List.append_cancel_left_eq] at h
  obtain ⟨hstart, h⟩ := number_unique (by decide) (by decide) h
  simp only [List.append_cancel_left_eq] at h
  obtain ⟨hstop, h⟩ := number_unique (by decide) (by decide) h
  simp only [List.append_cancel_left_eq] at h
  obtain ⟨hcolumn, h⟩ := number_unique (by decide) (by decide) h
  simp only [List.append_cancel_left_eq] at h
  obtain ⟨hline, h⟩ := number_unique (by decide) (by decide) h
  simp only [List.append_cancel_left_eq] at h
  obtain ⟨hvirtual, h⟩ := truth_unique h
  exact ⟨⟨Token.kind_of_name ha hb hname, hstart, hstop, hcolumn, hline, hvirtual⟩,
    List.append_cancel_left h⟩

end Rows

section Lists

/-- Lists of tokens that are written one behind the other agree if each token tells where it ends,
and nothing that is written for a token begins like what follows the last one. -/
theorem forall₂_of_flatMap {write : Token → Text} {rest : Text} {xs ys : List Token}
    (hwrite : ∀ a ∈ xs, ∀ b ∈ ys, ∀ r r', write a ++ r = write b ++ r' → a.Alike b ∧ r = r')
    (hrest : ∀ t r, write t ++ r ≠ rest)
    (h : xs.flatMap write ++ rest = ys.flatMap write ++ rest) :
    List.Forall₂ Token.Alike xs ys := by
  induction xs generalizing ys with
  | nil =>
    cases ys with
    | nil => exact .nil
    | cons b ys =>
      rw [List.flatMap_cons, List.append_assoc] at h
      exact absurd h.symm (hrest b _)
  | cons a xs ih =>
    cases ys with
    | nil =>
      rw [List.flatMap_cons, List.append_assoc] at h
      exact absurd h (hrest a _)
    | cons b ys =>
      rw [List.flatMap_cons, List.flatMap_cons, List.append_assoc, List.append_assoc] at h
      obtain ⟨halike, hmore⟩ := hwrite a (by simp) b (by simp) _ _ h
      apply List.Forall₂.cons halike
      exact ih (fun a ha b hb => hwrite a (by simp [ha]) b (by simp [hb])) hmore

theorem intercalate_cons (between first : Text) (more : List Text) :
    between.intercalate (first :: more) = first ++ more.flatMap (between ++ ·) := by
  induction more generalizing first with
  | nil => simp
  | cons second more ih =>
    rw [List.intercalate_cons_cons, ih, List.flatMap_cons]
    simp

theorem table_cons (t : Token) (more : List Token) :
    (table (t :: more)).toList = (t :: more).flatMap fun u => u.row.toList ++ ['\n'] := by
  have hfeed : "\n".toList = ['\n'] := rfl
  rw [table, String.toList_append, String.toList_intercalate, List.map_cons, List.map_cons,
    intercalate_cons, hfeed]
  induction more generalizing t with
  | nil => simp
  | cons u more ih =>
    rw [List.flatMap_cons, ← ih u]
    simp

theorem table_cons_ne (t : Token) (more : List Token) : table (t :: more) ≠ table [] := by
  intro h
  have hlist := congrArg String.toList h
  rw [table_cons, List.flatMap_cons, Token.row] at hlist
  cases hvirtual : t.virtual <;> simp [hvirtual, table] at hlist

theorem json_cons (t : Token) (more : List Token) :
    (json (t :: more)).toList = "[\n".toList ++ (t.json.toList ++
      (more.flatMap (fun u => ",\n".toList ++ u.json.toList) ++ "\n]".toList)) := by
  simp only [json, List.isEmpty_cons, Bool.false_eq_true, if_false, String.toList_append,
    String.toList_intercalate, List.map_cons, intercalate_cons, List.map_map, List.flatMap_map,
    List.append_assoc, Function.comp_apply]

theorem json_cons_ne (t : Token) (more : List Token) : json (t :: more) ≠ json [] := by
  intro h
  have hlist := congrArg String.toList h
  rw [json_cons] at hlist
  cases hlist

end Lists

namespace Token.Alike

variable {a b : Token}

theorem name_eq (h : a.Alike b) : a.name = b.name := by
  rw [name, name, h.kind_eq]

theorem row_eq (h : a.Alike b) : a.row = b.row := by
  rw [row, row, h.name_eq, h.start_eq, h.stop_eq, h.column_eq, h.line_eq, h.virtual_eq]

theorem json_eq (h : a.Alike b) : a.json = b.json := by
  unfold json
  rw [h.name_eq, h.start_eq, h.stop_eq, h.column_eq, h.line_eq, h.virtual_eq]

theorem map_eq {β : Type} {write : Token → β} {xs ys : List Token}
    (hwrite : ∀ a b, a.Alike b → write a = write b) (h : List.Forall₂ Alike xs ys) :
    xs.map write = ys.map write := by
  induction h with
  | nil => rfl
  | cons halike _ ih => rw [List.map_cons, List.map_cons, hwrite _ _ halike, ih]

end Token.Alike

section Dumps

variable {xs ys : List Token}

theorem alike_of_table (hxs : ∀ t ∈ xs, t.kind ≠ some .endOfInput)
    (hys : ∀ t ∈ ys, t.kind ≠ some .endOfInput) (h : table xs = table ys) :
    List.Forall₂ Token.Alike xs ys := by
  cases xs with
  | nil =>
    cases ys with
    | nil => exact .nil
    | cons b ys => exact absurd h.symm (table_cons_ne b ys)
  | cons a xs =>
    cases ys with
    | nil => exact absurd h (table_cons_ne a xs)
    | cons b ys =>
      have hlist := congrArg String.toList h
      rw [table_cons, table_cons, ← List.append_nil (List.flatMap _ (a :: xs)),
        ← List.append_nil (List.flatMap _ (b :: ys))] at hlist
      refine forall₂_of_flatMap (fun a ha b hb r r' hrow => ?_) (fun t r => by simp) hlist
      rw [List.append_assoc, List.append_assoc] at hrow
      exact row_unique (hxs a ha) (hys b hb) hrow

theorem alike_of_json (hxs : ∀ t ∈ xs, t.kind ≠ some .endOfInput)
    (hys : ∀ t ∈ ys, t.kind ≠ some .endOfInput) (h : json xs = json ys) :
    List.Forall₂ Token.Alike xs ys := by
  cases xs with
  | nil =>
    cases ys with
    | nil => exact .nil
    | cons b ys => exact absurd h.symm (json_cons_ne b ys)
  | cons a xs =>
    cases ys with
    | nil => exact absurd h (json_cons_ne a xs)
    | cons b ys =>
      have hlist := congrArg String.toList h
      rw [json_cons, json_cons] at hlist
      obtain ⟨halike, hmore⟩ :=
        object_unique (hxs a (by simp)) (hys b (by simp)) (List.append_cancel_left hlist)
      apply List.Forall₂.cons halike
      refine forall₂_of_flatMap (fun a ha b hb r r' hobject => ?_) (fun t r h => by cases h) hmore
      rw [List.append_assoc, List.append_assoc] at hobject
      exact object_unique (hxs a (by simp [ha])) (hys b (by simp [hb]))
        (List.append_cancel_left hobject)

end Dumps

/-- Tables and JSON arrays of tokens lose nothing but which of the tokens are code: they are equal
exactly if the tokens agree one by one in all else. -/
theorem dumps_eq_iff {xs ys : List Token} (hxs : ∀ t ∈ xs, t.kind ≠ some .endOfInput)
    (hys : ∀ t ∈ ys, t.kind ≠ some .endOfInput) :
    (table xs = table ys ↔ List.Forall₂ Token.Alike xs ys) ∧
      (json xs = json ys ↔ List.Forall₂ Token.Alike xs ys) := by
  refine ⟨⟨alike_of_table hxs hys, fun h => ?_⟩, ⟨alike_of_json hxs hys, fun h => ?_⟩⟩
  · rw [table, table, Token.Alike.map_eq (fun _ _ => Token.Alike.row_eq) h]
  · have hempty : xs.isEmpty = ys.isEmpty := by cases h <;> rfl
    rw [json, json, Token.Alike.map_eq (fun _ _ => Token.Alike.json_eq) h, hempty]

/-- A token whose start is wider than its column of the table. -/
def wide : Token :=
  ⟨some .variableId, 1234567, 8, -1, 0, true, false⟩

/-- The digits of both offsets are those of `wide`, in the same order. -/
def shifted : Token :=
  ⟨some .variableId, 123456, 78, -1, 0, true, false⟩

theorem dumps_eq_iff_wide :
    (∀ t ∈ [wide], t.kind ≠ some .endOfInput) ∧ (∀ t ∈ [shifted], t.kind ≠ some .endOfInput) ∧
      table [wide] ≠ table [shifted] ∧ json [wide] = json [{ wide with code := false }] := by
  have hwide : ∀ t ∈ [wide], t.kind ≠ some .endOfInput := by decide
  have hshifted : ∀ t ∈ [shifted], t.kind ≠ some .endOfInput := by decide
  have hcopy : ∀ t ∈ [{ wide with code := false }], t.kind ≠ some .endOfInput := by decide
  refine ⟨hwide, hshifted, fun h => ?_, ?_⟩
  · cases (dumps_eq_iff hwide hshifted).1.mp h with
    | cons halike _ => exact absurd halike.start_eq (by decide)
  · apply (dumps_eq_iff hwide hcopy).2.mpr
    exact .cons ⟨rfl, rfl, rfl, rfl, rfl, rfl⟩ .nil

end Layout

end OffsideRule
