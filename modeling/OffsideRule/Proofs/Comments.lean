import OffsideRule.Proofs.Recognition

/-! Block comments. A comment stands between its two delimiters, and what it holds are comments and
single characters at which no delimiter begins. The scanner counts how many comments are open; it
passes over items without a change of the count, and where it comes to the end, it has passed over
items. So it finds exactly the comments of this grammar. -/

namespace OffsideRule

/-- The delimiter that opens a block comment stands at the front. -/
def OpensComment (s : Text) : Prop :=
  ['{', '-'] <+: s

/-- The delimiter that closes a block comment stands at the front. -/
def ClosesComment (s : Text) : Prop :=
  ['-', '}'] <+: s

/-- `CommentItems w rest` says that `w` is a sequence of items where `rest` follows it. -/
inductive CommentItems : Text → Text → Prop
  | nil (rest : Text) : CommentItems [] rest
  | comment {inner more rest : Text} : CommentItems inner ('-' :: '}' :: (more ++ rest)) →
      CommentItems more rest → CommentItems ('{' :: '-' :: (inner ++ '-' :: '}' :: more)) rest
  | character {c : Char} {more rest : Text} : ¬ OpensComment (c :: (more ++ rest)) →
      ¬ ClosesComment (c :: (more ++ rest)) → CommentItems more rest →
      CommentItems (c :: more) rest

/-- `BlockComment w rest` says that `w` is a comment where `rest` follows it. -/
inductive BlockComment : Text → Text → Prop
  | mk {items rest : Text} : CommentItems items ('-' :: '}' :: rest) →
      BlockComment ('{' :: '-' :: (items ++ ['-', '}'])) rest

section

variable {outer : Nat} {s items rest : Text}

theorem commentBody_of_character {c : Char} (hopen : ¬ OpensComment (c :: s))
    (hclose : ¬ ClosesComment (c :: s)) :
    commentBody outer (c :: s) = (commentBody outer s).after 1 := by
  have hopen' : ∀ more, c = '{' → s = '-' :: more → False := by
    rintro more rfl rfl
    exact hopen ⟨more, rfl⟩
  have hclose' : ∀ more, c = '-' → s = '}' :: more → False := by
    rintro more rfl rfl
    exact hclose ⟨more, rfl⟩
  rw [commentBody]
  · exact hopen'
  · exact fun more _ => hclose' more
  · exact fun _ more _ => hclose' more

/-- Behind items the scanner is as deep as before. -/
theorem commentBody_of_items (h : CommentItems items rest) (outer : Nat) :
    commentBody outer (items ++ rest) = (commentBody outer rest).after items.length := by
  induction h generalizing outer with
  | nil rest => rw [List.nil_append, List.length_nil, Extent.after_zero]
  | @comment inner more rest _ _ ihinner ihmore =>
    have hinner := ihinner (outer + 1)
    rw [commentBody, ihmore outer, Extent.after_after, Extent.after_after] at hinner
    simp only [List.cons_append, List.append_assoc, commentBody, hinner, Extent.after_after,
      List.length_cons, List.length_append]
    congr 1
    omega
  | @character c more rest hopen hclose _ ih =>
    rw [List.cons_append, commentBody_of_character hopen hclose, ih outer, Extent.after_after,
      List.length_cons, Nat.add_comm]

theorem commentBody_of_blockComment (h : CommentItems items ('-' :: '}' :: rest)) :
    (commentBody 0 (items ++ '-' :: '}' :: rest)).after 2 =
      ⟨('{' :: '-' :: (items ++ ['-', '}'])).length, true⟩ := by
  rw [commentBody_of_items h, commentBody, Extent.after_after]
  simp only [Extent.after, List.length_cons, List.length_append, List.length_nil]
  congr 1
  omega

/-- Where the scanner finds an end, there are items up to the first delimiter that closes. -/
theorem exists_items {outer : Nat} {s : Text} (h : (commentBody outer s).closed = true) :
    ∃ items rest, s = items ++ '-' :: '}' :: rest ∧ CommentItems items ('-' :: '}' :: rest) := by
  match s with
  | [] => contradiction
  | c :: more =>
    by_cases hopen : OpensComment (c :: more)
    · obtain ⟨more, hmore⟩ := hopen
      cases hmore
      have hnested : (commentBody (outer + 1) more).closed = true := h
      -- the nested comment, and then the items behind it
      obtain ⟨inner, behind, rfl, hinner⟩ := exists_items hnested
      have hbehind : (commentBody outer behind).closed = true := by
        rwa [commentBody_of_items hinner (outer + 1), commentBody] at hnested
      obtain ⟨items, rest, rfl, hitems⟩ := exists_items hbehind
      exact ⟨_, rest, by simp, .comment hinner hitems⟩
    · by_cases hclose : ClosesComment (c :: more)
      · obtain ⟨rest, hrest⟩ := hclose
        exact ⟨[], rest, hrest.symm, .nil _⟩
      · rw [commentBody_of_character hopen hclose] at h
        obtain ⟨items, rest, rfl, hitems⟩ := exists_items h
        exact ⟨c :: items, rest, rfl, .character hopen hclose hitems⟩
termination_by s.length

end

/-- Where reading comes to the delimiter that opens a comment, the pass recognizes the comments. -/
theorem Reads.recognizes_blockComment {start c : Cursor} {front : List Token}
    (h : Reads start front c) (hopen : OpensComment c.rest) :
    (Pass.run start).Recognizes c .blockComment "unterminated block comment" BlockComment := by
  obtain ⟨more, hmore⟩ := hopen
  have hrest : c.rest = '{' :: '-' :: more := hmore.symm
  have hread : Lexeme.read c.rest =
      Lexeme.delimited .blockComment .openComment ((commentBody 0 more).after 2) := by
    rw [hrest, Lexeme.read]
  refine h.recognizes (by simp [hrest]) hread (fun hclosed => ?_) (fun w rest hw hform => ?_)
  · obtain ⟨items, rest, rfl, hitems⟩ := exists_items hclosed
    exact ⟨_, rest, by simp [hrest], .mk hitems⟩
  · obtain ⟨hitems⟩ := hform
    simp only [hrest, List.cons_append, List.append_assoc, List.cons.injEq, true_and] at hw
    subst hw
    exact commentBody_of_blockComment hitems

/-- At each offset where a block comment opens, reading on from there recognizes the block comments
of the grammar, and so does reading the source if it comes there. -/
theorem blockComments_recognized {source : Text} {p : Nat} (h : OpensComment (source.drop p)) :
    (Pass.run (.ofOffset source p)).Recognizes (.ofOffset source p) .blockComment
      "unterminated block comment" BlockComment ∧
    (Boundary source p → (Pass.run (.start source)).Recognizes (.ofOffset source p) .blockComment
      "unterminated block comment" BlockComment) := by
  refine ⟨(Reads.refl _).recognizes_blockComment h, fun hp => ?_⟩
  obtain ⟨front, hfront⟩ := hp.reads_ofOffset
  exact hfront.recognizes_blockComment h

/-- A comment that holds two comments, the first of them with a brace and the other empty, and a
delimiter behind it that closes nothing. -/
def nestedComments : Text :=
  ['x', '{', '-', '{', '-', '}', '-', '}', '{', '-', '-', '}', '-', '}', '-', '}']

/-- The comment ends where as many delimiters have closed as have opened. -/
theorem blockComments_recognized_nested :
    OpensComment (nestedComments.drop 1) ∧ Boundary nestedComments 1 ∧
      (Pass.run (.start nestedComments)).Emits ⟨1, 2, 1⟩ .blockComment
        ((nestedComments.drop 1).take 13) ∧
      BlockComment ((nestedComments.drop 1).take 13) ['-', '}'] := by
  have hopen : OpensComment (nestedComments.drop 1) := ⟨nestedComments.drop 3, rfl⟩
  have hboundary : Boundary nestedComments 1 :=
    Or.inl ⟨⟨.blockComment, (nestedComments.drop 1).take 13, ⟨1, 2, 1⟩, ⟨1, 15, 14⟩⟩,
      by decide +kernel, rfl⟩
  have hemits : (Pass.run (.start nestedComments)).Emits ⟨1, 2, 1⟩ .blockComment
      ((nestedComments.drop 1).take 13) := by decide +kernel
  obtain ⟨rest, hrest, hcomment⟩ :=
    (((blockComments_recognized hopen).2 hboundary).emits_iff _).mp hemits
  have hsplit : (nestedComments.drop 1).take 13 ++ ['-', '}'] =
      (nestedComments.drop 1).take 13 ++ rest := hrest
  obtain rfl := List.append_cancel_left hsplit
  exact ⟨hopen, hboundary, hemits, hcomment⟩

end OffsideRule
