import Mathlib.Tactic.SplitIfs
import OffsideRule.Files
import OffsideRule.Proofs.Encoding

/-! What reading and writing do to the files. A path leads to a place; a write changes what stands
at one place, and every path leads where it led before. An error names the path that was asked
for. -/

namespace OffsideRule

section Outcomes

variable {α β ε δ : Type} {x : Except ε α}

theorem bind_eq_ok_iff {k : α → Except ε β} {b : β} :
    x >>= k = .ok b ↔ ∃ a, x = .ok a ∧ k a = .ok b := by
  cases x <;> simp [bind, Except.bind]

theorem bind_eq_error_iff {k : α → Except ε β} {e : ε} :
    x >>= k = .error e ↔ x = .error e ∨ ∃ a, x = .ok a ∧ k a = .error e := by
  cases x <;> simp [bind, Except.bind]

theorem mapError_eq_ok_iff {k : ε → δ} {a : α} : x.mapError k = .ok a ↔ x = .ok a := by
  cases x <;> simp [Except.mapError]

theorem mapError_eq_error_iff {k : ε → δ} {e : δ} :
    x.mapError k = .error e ↔ ∃ e', x = .error e' ∧ k e' = e := by
  cases x <;> simp [Except.mapError]

end Outcomes

/-- A null character is in the path. -/
def Path.HasNull (p : Path) : Prop :=
  '\x00' ∈ p.toString.toList

/-- The error names the path and speaks of a null character just if there is one. -/
structure FileError.About (e : FileError) (p : Path) : Prop where
  path : e.path = p
  null : e.cause = .nullCharacter ↔ p.HasNull

theorem FileError.About.isFatal {e : FileError} {p : Path} (h : e.About p) :
    e.isFatal = true ↔ p.HasNull := by
  rw [FileError.isFatal, decide_eq_true_iff, h.null]

namespace Files

variable {f g : Files} {p q place : Path} {node : Node} {content : Bytes} {time : Int}
  {e : FileError}

section Put

theorem lookup_map_put (entries : List (Path × Node)) (p q : Path) (node : Node) :
    (entries.map fun entry => if entry.1 = p then (p, node) else entry).lookup q =
      if q = p then (entries.lookup q).map (fun _ => node) else entries.lookup q := by
  induction entries with
  | nil => split_ifs <;> rfl
  | cons entry rest ih =>
    obtain ⟨r, old⟩ := entry
    rw [List.map_cons]
    by_cases hr : r = p <;> by_cases hq : q = r
    · subst hr hq; simp
    · subst hr; simp only [if_true, List.lookup_cons, beq_eq_false_iff_ne.mpr hq, ih]
    · subst hq; simp [hr]
    · simp only [hr, if_false, List.lookup_cons, beq_eq_false_iff_ne.mpr hq, ih]

theorem lookup_put (f : Files) (p q : Path) (node : Node) :
    (f.put p node).entries.lookup q = if q = p then some node else f.entries.lookup q := by
  rw [put]
  split_ifs with hp hq hq
  · subst hq
    obtain ⟨old, hold⟩ := Option.isSome_iff_exists.mp hp
    rw [lookup_map_put, if_pos rfl, hold, Option.map_some]
  · rw [lookup_map_put, if_neg hq]
  · subst hq
    simp [List.lookup_append, Option.not_isSome_iff_eq_none.mp hp]
  · simp [List.lookup_append, List.lookup_cons, beq_eq_false_iff_ne.mpr hq]

theorem node?_put (f : Files) (p q : Path) (node : Node) :
    (f.put p node).node? q = if q = p then some node else f.node? q := by
  simp only [node?, lookup_put]
  split_ifs <;> rfl

end Put

/-- No directory stands at the place. -/
def Free (f : Files) (place : Path) : Prop :=
  ∀ time, f.node? place ≠ some (.directory time)

section Walk

theorem walk_put (h : f.Free p) (content : Bytes) (time : Int) (names : List String)
    (here place : Path) :
    (f.put p (.file content time)).walk here names = .ok place ↔ f.walk here names = .ok place := by
  induction names generalizing here with
  | nil => rfl
  | cons name more ih =>
    rw [walk.eq_def, walk.eq_def f here]
    dsimp only
    split_ifs with hup hlong
    · exact ih here.up
    · rfl
    · cases more with
      | nil => rfl
      | cons next more =>
        rw [node?_put]
        by_cases hchild : here.child name = p
        · -- Nothing lies below a file, and nothing lay below where it now stands.
          rw [if_pos hchild, hchild]
          cases hnode : f.node? p with
          | none => simp
          | some old =>
            cases old with
            | directory time => exact absurd hnode (h time)
            | file old time => simp
        · rw [if_neg hchild]
          cases f.node? (here.child name) with
          | none => rfl
          | some old =>
            cases old with
            | directory _ => exact ih (here.child name)
            | file _ _ => rfl

theorem walk_error {names : List String} {here : Path} {o : Obstruction}
    (h : f.walk here names = .error o) : o ≠ .nullCharacter := by
  induction names generalizing here with
  | nil => cases h
  | cons name more ih =>
    rw [walk.eq_def] at h
    dsimp only at h
    split_ifs at h
    · exact ih h
    · cases h; decide
    · split at h
      · cases h
      · exact ih h
      · cases h; decide
      · cases h; decide

end Walk

section Locate

theorem locate_eq_ok_iff : f.locate p = .ok place ↔
    ¬ p.HasNull ∧ p.toString.utf8ByteSize ≤ maxPathSize ∧
      f.walk ⟨p.root, []⟩ p.names = .ok place := by
  rw [locate]
  simp only [List.contains_iff_mem]
  split_ifs with hnull hlong
  · simp [Path.HasNull, hnull]
  · simp only [Nat.not_le.mpr hlong, false_and, and_false]
  · rw [mapError_eq_ok_iff]
    simp only [Path.HasNull, hnull, not_false_eq_true, Nat.not_lt.mp hlong, true_and]

theorem locate_put (h : f.Free p) (content : Bytes) (time : Int) (q place : Path) :
    (f.put p (.file content time)).locate q = .ok place ↔ f.locate q = .ok place := by
  rw [locate_eq_ok_iff, locate_eq_ok_iff, walk_put h]

theorem about_of_locate (h : f.locate p = .error e) : e.About p := by
  rw [locate] at h
  simp only [List.contains_iff_mem] at h
  split_ifs at h with hnull hlong
  · cases h
    exact ⟨rfl, iff_of_true rfl hnull⟩
  · cases h
    exact ⟨rfl, iff_of_false nofun hnull⟩
  · obtain ⟨o, ho, rfl⟩ := mapError_eq_error_iff.mp h
    exact ⟨rfl, iff_of_false (walk_error ho) hnull⟩

/-- An error about a path that leads somewhere does not speak of a null character. -/
theorem about_of_located (h : f.locate p = .ok place) {o : Obstruction}
    (ho : o ≠ .nullCharacter) : FileError.About ⟨o, p⟩ p :=
  ⟨rfl, iff_of_false ho (locate_eq_ok_iff.mp h).1⟩

end Locate

section Find

theorem find_eq_ok_iff :
    f.find p = .ok node ↔ ∃ place, f.locate p = .ok place ∧ f.node? place = some node := by
  rw [find, bind_eq_ok_iff]
  refine exists_congr fun place => and_congr_right fun _ => ?_
  cases f.node? place with
  | none => simp [throw, throwThe, MonadExceptOf.throw]
  | some old => simp [pure, Except.pure]

theorem about_of_find (h : f.find p = .error e) : e.About p := by
  rw [find, bind_eq_error_iff] at h
  obtain h | ⟨place, hplace, h⟩ := h
  · exact about_of_locate h
  · split at h
    · cases h
    · cases h
      exact about_of_located hplace nofun

theorem read_eq_ok_iff : f.read p = .ok content ↔ ∃ time, f.find p = .ok (.file content time) := by
  rw [read, bind_eq_ok_iff]
  constructor
  · rintro ⟨node, hnode, h⟩
    cases node with
    | directory time => cases h
    | file content time => cases h; exact ⟨time, hnode⟩
  · rintro ⟨time, h⟩
    exact ⟨_, h, rfl⟩

theorem about_of_read (h : f.read p = .error e) : e.About p := by
  rw [read, bind_eq_error_iff] at h
  obtain h | ⟨node, hnode, h⟩ := h
  · exact about_of_find h
  · obtain ⟨place, hplace, -⟩ := find_eq_ok_iff.mp hnode
    cases node with
    | directory time => cases h; exact about_of_located hplace nofun
    | file content time => cases h

theorem about_of_modified (h : f.modified p = .error e) : e.About p := by
  rw [modified, bind_eq_error_iff] at h
  obtain h | ⟨node, hnode, h⟩ := h
  · exact about_of_find h
  · cases node <;> cases h

theorem not_hasNull_of_modified (h : f.modified p = .ok time) : ¬ p.HasNull := by
  rw [modified, bind_eq_ok_iff] at h
  obtain ⟨node, hnode, -⟩ := h
  obtain ⟨place, hplace, -⟩ := find_eq_ok_iff.mp hnode
  exact (locate_eq_ok_iff.mp hplace).1

end Find

section Write

/-- Both paths lead to one place. -/
def SamePlace (f : Files) (p q : Path) : Prop :=
  ∃ place, f.locate p = .ok place ∧ f.locate q = .ok place

/-- A text was written to a path: a file that holds just this text stands there, and every other
file is there with the content and the time that it had, and no others are. -/
structure Wrote (before after : Files) (p : Path) (text : String) : Prop where
  content : after.read p = .ok (Utf8.encode text)
  legible : Utf8.decode (Utf8.encode text) = .ok text.toList
  others : ∀ q, ¬ before.SamePlace p q → ∀ content time,
    after.find q = .ok (.file content time) ↔ before.find q = .ok (.file content time)

theorem write_eq_ok (h : f.write p content = .ok g) :
    ∃ place time, f.locate p = .ok place ∧ f.Free place ∧ g = f.put place (.file content time) := by
  rw [write, bind_eq_ok_iff] at h
  obtain ⟨place, hplace, h⟩ := h
  split at h <;> cases h
  · next time hnode => exact ⟨place, later time, hplace, by simp [Free, hnode], rfl⟩
  · next hnode => exact ⟨place, present, hplace, by simp [Free, hnode], rfl⟩

theorem about_of_write (h : f.write p content = .error e) : e.About p := by
  rw [write, bind_eq_error_iff] at h
  obtain h | ⟨place, hplace, h⟩ := h
  · exact about_of_locate h
  · split at h <;> cases h
    exact about_of_located hplace nofun

theorem find_put (h : f.Free place) (hq : f.locate q ≠ .ok place) (node : Node) :
    (f.put place (.file content time)).find q = .ok node ↔ f.find q = .ok node := by
  rw [find_eq_ok_iff, find_eq_ok_iff]
  refine exists_congr fun there => ?_
  rw [locate_put h, node?_put]
  refine and_congr_right fun hthere => ?_
  rw [if_neg]
  rintro rfl
  exact hq hthere

theorem wrote_of_write {text : String} (h : f.write p (Utf8.encode text) = .ok g) :
    Wrote f g p text := by
  obtain ⟨place, time, hplace, hfree, rfl⟩ := write_eq_ok h
  refine ⟨?_, Utf8.decode_encode text, ?_⟩
  · rw [read_eq_ok_iff]
    refine ⟨time, find_eq_ok_iff.mpr ⟨place, (locate_put hfree ..).mpr hplace, ?_⟩⟩
    rw [node?_put, if_pos rfl]
  · intro q hq content' time'
    exact find_put hfree (fun hthere => hq ⟨place, hplace, hthere⟩) _

end Write

end Files

end OffsideRule
