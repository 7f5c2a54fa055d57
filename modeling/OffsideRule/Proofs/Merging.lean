import Mathlib.Data.List.Basic
import Mathlib.Data.List.TakeWhile
import Mathlib.Data.Set.List
import OffsideRule.Program.Settings
import OffsideRule.Proofs.FileAccess
import OffsideRule.Proofs.Variant

/-! The command line merged with the configuration file, field by field. A document is refused for
what it holds alone: a flag neither hides nor causes an error in the file. In a document that is
accepted every field is read from its own entry, unless its own flag was given. -/

namespace OffsideRule

theorem exists_map_eq_iff {α β : Type} {f : α → β} {ys : List β} :
    (∃ xs : List α, xs.map f = ys) ↔ ∀ y ∈ ys, ∃ x, f x = y := by
  rw [← Set.mem_range, Set.range_list_map]
  rfl

theorem Keyword.word_injective : Function.Injective Keyword.word := by
  intro k l h
  simpa [Keyword.ofWord?_word] using congrArg Keyword.ofWord? h

theorem Program.Format.ofName?_eq_some_iff {s : String} {f : Format} :
    ofName? s = some f ↔ f.name = s := by
  rw [ofName?]
  constructor
  · intro h
    simpa using List.find?_some h
  · rintro rfl
    cases f <;> rfl

namespace Toml.Value

theorem strings?_eq_some_iff {v : Value} {words : List String} :
    v.strings? = some words ↔ v = .array (words.map .string) := by
  cases v with
  | array items =>
    rw [strings?, Value.array.injEq]
    induction items generalizing words with
    | nil => cases words <;> simp
    | cons item more ih =>
      cases words with
      | nil => cases item <;> simp [Option.bind_eq_some_iff]
      | cons word words => cases item <;> simp [Option.bind_eq_some_iff, ← ih, and_assoc, and_comm]
  | _ => simp [strings?]

/-- The truth value that an entry holds. -/
def boolean? : Value → Option Bool
  | boolean b => some b
  | _ => none

/-- The format that an entry names. -/
def format? : Value → Option Program.Format
  | string s => Program.Format.ofName? s
  | _ => none

theorem format?_eq_some_iff {v : Value} {f : Program.Format} :
    v.format? = some f ↔ v = .string f.name := by
  cases v with
  | string s =>
    rw [format?, Program.Format.ofName?_eq_some_iff, Value.string.injEq, eq_comm]
  | _ => simp [format?]

end Toml.Value

namespace Program.Settings

variable {doc : Toml.Table}

section Document

/-- The table under a name, empty where there is none. -/
def tableAt (doc : Toml.Table) (name : String) : Toml.Table :=
  match doc.lookup name with
  | some (.table entries) => entries
  | _ => []

/-- What stands in the tables of a document. -/
def entry (doc : Toml.Table) (table name : String) : Option Toml.Value :=
  (tableAt doc table).lookup name

/-- A document in which every entry that is asked for is absent or of its own type. -/
structure Sound (doc : Toml.Table) : Prop where
  layout : ∀ v, doc.lookup "layout" = some v → ∃ entries, v = .table entries
  output : ∀ v, doc.lookup "output" = some v → ∃ entries, v = .table entries
  keywords : ∀ v, entry doc "layout" "keywords" = some v →
    ∃ words : List String, v = .array (words.map .string)
  closeTopLevel : ∀ v, entry doc "layout" "close_top_level" = some v → ∃ b, v = .boolean b
  format : ∀ v, entry doc "output" "format" = some v → ∃ f : Format, v = .string f.name

theorem subtable_eq_ok_iff {name : String} {problem : ConfigProblem} {t : Toml.Table} :
    subtable doc name problem = .ok t ↔
      (∀ v, doc.lookup name = some v → ∃ entries, v = .table entries) ∧ tableAt doc name = t := by
  rw [subtable, tableAt]
  cases doc.lookup name with
  | none => simp
  | some v => cases v <;> simp

theorem keywordsOf_eq_ok_iff {t : Toml.Table} {words : Option (List String)} :
    keywordsOf t = .ok words ↔
      (∀ v, t.lookup "keywords" = some v → ∃ words : List String, v = .array (words.map .string)) ∧
        (t.lookup "keywords").bind Toml.Value.strings? = words := by
  rw [keywordsOf]
  cases t.lookup "keywords" with
  | none => simp
  | some v => cases h : v.strings? <;> simp [← Toml.Value.strings?_eq_some_iff, h]

theorem closeOf_eq_ok_iff {t : Toml.Table} {close : Option Bool} :
    closeOf t = .ok close ↔
      (∀ v, t.lookup "close_top_level" = some v → ∃ b, v = .boolean b) ∧
        (t.lookup "close_top_level").bind Toml.Value.boolean? = close := by
  rw [closeOf]
  cases t.lookup "close_top_level" with
  | none => simp
  | some v => cases v <;> simp [Toml.Value.boolean?]

theorem formatOf_eq_ok_iff {t : Toml.Table} {format : Option Format} :
    formatOf t = .ok format ↔
      (∀ v, t.lookup "format" = some v → ∃ f : Format, v = .string f.name) ∧
        (t.lookup "format").bind Toml.Value.format? = format := by
  rw [formatOf]
  cases t.lookup "format" with
  | none => simp
  | some v =>
    simp only [← Toml.Value.format?_eq_some_iff]
    cases v with
    | string s => cases h : Format.ofName? s <;> simp [Toml.Value.format?, h]
    | _ => simp [Toml.Value.format?]

/-- A document is accepted just if it is sound, and each field is then read from its own entry. -/
theorem FileSettings.ofTable_eq_ok_iff {f : FileSettings} :
    FileSettings.ofTable doc = .ok f ↔ Sound doc ∧
      f = ⟨(entry doc "layout" "keywords").bind Toml.Value.strings?,
        (entry doc "layout" "close_top_level").bind Toml.Value.boolean?,
        (entry doc "output" "format").bind Toml.Value.format?⟩ := by
  simp only [FileSettings.ofTable, bind_eq_ok_iff, subtable_eq_ok_iff, keywordsOf_eq_ok_iff,
    closeOf_eq_ok_iff, formatOf_eq_ok_iff]
  constructor
  · rintro ⟨_, ⟨hlayout, rfl⟩, _, ⟨houtput, rfl⟩, _, ⟨hkeywords, rfl⟩, _, ⟨hclose, rfl⟩, _,
      ⟨hformat, rfl⟩, h⟩
    cases h
    exact ⟨⟨hlayout, houtput, hkeywords, hclose, hformat⟩, rfl⟩
  · rintro ⟨h, rfl⟩
    exact ⟨_, ⟨h.layout, rfl⟩, _, ⟨h.output, rfl⟩, _, ⟨h.keywords, rfl⟩, _,
      ⟨h.closeTopLevel, rfl⟩, _, ⟨h.format, rfl⟩, rfl⟩

end Document

section Fields

variable {limits : Toml.Limits} {a b : Arguments} {s : Settings}

/-- The keywords that the command line gives, if it gives any. -/
def keywordFlag (a : Arguments) : Option (List (Option String)) :=
  if a.keywords = [] then none else some a.keywords

def closeFlag (a : Arguments) : Option Bool :=
  if a.noCloseTopLevel then some false else none

/-- In each field the flag wins over the entry, and the entry over what holds by default. -/
structure Fieldwise (a : Arguments) (doc : Toml.Table) (s : Settings) : Prop where
  keywords : s.keywords = (keywordFlag a).or
    (((entry doc "layout" "keywords").bind Toml.Value.strings?).map (·.map some))
  closeTopLevel : s.closeTopLevel = ((closeFlag a).or
    ((entry doc "layout" "close_top_level").bind Toml.Value.boolean?)).getD true
  format : s.format = (a.format.or
    (((entry doc "output" "format").bind Toml.Value.format?).map some)).getD (some .tokens)

theorem ofTable_eq_ok_iff : ofTable limits a doc = .ok s ↔
    ∃ f, FileSettings.ofTable doc = .ok f ∧ merge a f = s := by
  rw [ofTable]
  cases FileSettings.ofTable doc <;> simp

theorem fieldwise_of_ofTable (h : ofTable limits a doc = .ok s) : Fieldwise a doc s := by
  obtain ⟨f, hf, rfl⟩ := ofTable_eq_ok_iff.mp h
  obtain ⟨-, rfl⟩ := FileSettings.ofTable_eq_ok_iff.mp hf
  refine ⟨?_, ?_, ?_⟩
  · rw [merge, keywordFlag]
    cases a.keywords <;> simp
  · rw [merge, closeFlag]
    cases a.noCloseTopLevel <;> simp
  · rw [merge]
    cases a.format with
    | some format => simp
    | none => cases (entry doc "output" "format").bind Toml.Value.format? <;> simp

theorem exists_ofTable_iff : (∃ s, ofTable limits a doc = .ok s) ↔ Sound doc := by
  constructor
  · rintro ⟨s, h⟩
    obtain ⟨f, hf, -⟩ := ofTable_eq_ok_iff.mp h
    exact (FileSettings.ofTable_eq_ok_iff.mp hf).1
  · intro h
    exact ⟨_, ofTable_eq_ok_iff.mpr ⟨_, FileSettings.ofTable_eq_ok_iff.mpr ⟨h, rfl⟩, rfl⟩⟩

/-- A failure speaks of the document and of the file that was asked for, and of nothing else on the
command line. -/
theorem ofTable_eq_error_iff {failure : Failure} : ofTable limits a doc = .error failure ↔
    ∃ problem, FileSettings.ofTable doc = .error problem ∧
      ofProblem limits (configPath a) problem = failure := by
  rw [ofTable]
  cases FileSettings.ofTable doc <;> simp

theorem configPath_congr (hinput : a.input = b.input) (hconfig : a.config = b.config) :
    configPath a = configPath b := by
  rw [configPath, configPath, hinput, hconfig]

theorem resolve_eq_error_iff {files : Files} {failure : Failure} :
    resolve limits a files = .error failure ↔
      load limits files (configPath a) = .error failure ∨
        ∃ doc, load limits files (configPath a) = .ok doc ∧
          ofTable limits a doc = .error failure := by
  rw [resolve, bind_eq_error_iff]

end Fields

section Selection

open Layout (Config)

variable {s : Settings} {c : Config}

/-- The words that open blocks: those that were chosen, or else the four of the language. -/
def selected (s : Settings) : List (Option String) :=
  s.keywords.getD (["where", "let", "do", "of"].map some)

/-- To choose no words is to choose those of the language. -/
theorem layout_selected (s : Settings) :
    layout { s with keywords := some s.selected } = s.layout := by
  rw [selected]
  cases hs : s.keywords with
  | none =>
    rw [layout, layout, hs]
    rfl
  | some words => rw [Option.getD_some, ← hs]

theorem layout_of_names {words : List String} (h : s.keywords = some (words.map some)) :
    s.layout = .ok c ↔ ∃ ks : List Keyword, ks.map Keyword.word = words ∧
      { Config.haskell with openers := ks.map .keyword, closeTopLevel := s.closeTopLevel } = c := by
  have htake : ((words.map some).takeWhile Option.isSome).filterMap id = words := by
    rw [List.takeWhile_eq_self_iff.mpr (by simp)]
    simp
  have hall : (words.map some).all Option.isSome = true := by simp
  rw [layout, h]
  simp only [htake, hall, if_true, Config.withKeywords]
  constructor
  · intro hc
    cases hkinds : Config.keywordKinds words with
    | error e => rw [hkinds] at hc; contradiction
    | ok kinds =>
      rw [hkinds] at hc
      obtain ⟨ks, hwords, rfl⟩ := Config.keywordKinds_eq_ok_iff.mp hkinds
      exact ⟨ks, hwords, by simpa [Except.map, Config.withCloseTopLevel] using hc⟩
  · rintro ⟨ks, hwords, rfl⟩
    rw [Config.keywordKinds_eq_ok_iff.mpr ⟨ks, hwords, rfl⟩]
    rfl

theorem all_of_layout {words : List (Option String)} (h : s.keywords = some words)
    (hc : s.layout = .ok c) : ∃ ws : List String, ws.map some = words := by
  simp only [layout, h] at hc
  split at hc
  · contradiction
  · split at hc
    · next hall =>
      rw [exists_map_eq_iff]
      intro word hword
      obtain ⟨w, rfl⟩ := Option.isSome_iff_exists.mp (List.all_eq_true.mp hall word hword)
      exact ⟨w, rfl⟩
    · contradiction

theorem layout_eq_ok_iff : s.layout = .ok c ↔
    ∃ ks : List Keyword, ks.map (fun k => some k.word) = s.selected ∧
      { Config.haskell with openers := ks.map .keyword, closeTopLevel := s.closeTopLevel } = c := by
  have hmap (ks : List Keyword) :
      ks.map (fun k => some k.word) = (ks.map Keyword.word).map some := by
    simp
  have hsome : Function.Injective (List.map (some : String → Option String)) :=
    List.map_injective_iff.mpr (Option.some_injective String)
  rw [← layout_selected]
  constructor
  · intro hc
    obtain ⟨ws, hws⟩ := all_of_layout rfl hc
    rw [← hws] at hc ⊢
    simpa only [hmap, hsome.eq_iff] using (layout_of_names rfl).mp hc
  · rintro ⟨ks, hks, hc⟩
    rw [hmap] at hks
    rw [← hks]
    exact (layout_of_names rfl).mpr ⟨ks, rfl, hc⟩

theorem exists_layout_error_iff : (∃ failure, s.layout = .error failure) ↔
    ∃ w ∈ s.selected, ∀ k : Keyword, some k.word ≠ w := by
  have hnone : (∃ w ∈ s.selected, ∀ k : Keyword, some k.word ≠ w) ↔
      ¬ ∃ ks : List Keyword, ks.map (fun k => some k.word) = s.selected := by
    rw [exists_map_eq_iff]
    push Not
    rfl
  rw [hnone]
  cases h : s.layout with
  | ok c =>
    obtain ⟨ks, hks, -⟩ := layout_eq_ok_iff.mp h
    simpa using ⟨ks, hks⟩
  | error failure =>
    refine iff_of_true ⟨failure, rfl⟩ ?_
    rintro ⟨ks, hks⟩
    rw [layout_eq_ok_iff.mpr ⟨ks, hks, rfl⟩] at h
    contradiction

theorem openers_of_layout (h : s.layout = .ok c) : ∃ kinds,
    c = { Config.haskell with openers := kinds, closeTopLevel := s.closeTopLevel } ∧
      ∀ kind, kind ∈ kinds ↔ ∃ k : Keyword, some k.word ∈ s.selected ∧ kind = .keyword k := by
  obtain ⟨ks, hks, rfl⟩ := layout_eq_ok_iff.mp h
  have hmem (k : Keyword) : some k.word ∈ s.selected ↔ k ∈ ks := by
    rw [← hks]
    apply List.mem_map_of_injective
    exact (Option.some_injective String).comp Keyword.word_injective
  exact ⟨_, rfl, by simp [hmem, eq_comm]⟩

end Selection

open Layout (Config)

variable {a b : Arguments}

/-- Two command lines with the same input and the same configuration file are refused together and
for the same reason. A document is accepted just if it is sound. The fields are then merged one by
one, and the layout has just the chosen keywords as openers, unless a word among them is none. -/
theorem ofTable_merges (limits : Toml.Limits) (hinput : a.input = b.input)
    (hconfig : a.config = b.config) :
    (∀ files failure, resolve limits a files = .error failure ↔
        resolve limits b files = .error failure) ∧
      ∀ doc : Toml.Table,
        (∀ files, load limits files (configPath a) = .ok doc →
          resolve limits a files = ofTable limits a doc ∧
            resolve limits b files = ofTable limits b doc) ∧
        (∀ failure, ofTable limits a doc = .error failure ↔ ofTable limits b doc = .error failure) ∧
        ((∃ s, ofTable limits a doc = .ok s) ↔ Sound doc) ∧
        ∀ s, ofTable limits a doc = .ok s → Fieldwise a doc s ∧
          ((∃ failure, s.layout = .error failure) ↔
            ∃ w ∈ s.selected, ∀ k : Keyword, some k.word ≠ w) ∧
          ∀ c, s.layout = .ok c → ∃ kinds,
            c = { Config.haskell with openers := kinds, closeTopLevel := s.closeTopLevel } ∧
              ∀ kind, kind ∈ kinds ↔ ∃ k : Keyword, some k.word ∈ s.selected ∧ kind = .keyword k := by
  have hpath : configPath a = configPath b := configPath_congr hinput hconfig
  have herror (doc : Toml.Table) (failure : Failure) :
      ofTable limits a doc = .error failure ↔ ofTable limits b doc = .error failure := by
    rw [ofTable_eq_error_iff, ofTable_eq_error_iff, hpath]
  refine ⟨?_, fun doc => ⟨?_, herror doc, exists_ofTable_iff, ?_⟩⟩
  · intro files failure
    simp only [resolve_eq_error_iff, hpath, herror]
  · intro files hload
    refine ⟨by rw [resolve, hload]; rfl, ?_⟩
    rw [hpath] at hload
    rw [resolve, hload]
    rfl
  · intro s hs
    exact ⟨fieldwise_of_ofTable hs, exists_layout_error_iff, fun c => openers_of_layout⟩

/-- A document that chooses no openers and leaves the outermost block open. -/
def noOpeners : Toml.Table :=
  [("layout", .table [("keywords", .array []), ("close_top_level", .boolean false)])]

/-- A flag does not hide that a format is wrong, and an empty choice is not the absence of one. -/
theorem ofTable_merges_flagged :
    let limits : Toml.Limits := .usual
    let plain : Arguments := { input := "a.hs" }
    let flagged : Arguments :=
      { input := "a.hs", format := some (some .json), keywords := [some "do"] }
    (∃ e, ofTable limits plain [("output", .table [("format", .integer 3)])] = .error (.config e) ∧
      ofTable limits flagged [("output", .table [("format", .integer 3)])] = .error (.config e)) ∧
      ∃ s t, ofTable limits plain noOpeners = .ok s ∧ ofTable limits flagged noOpeners = .ok t ∧
        s.selected = [] ∧ s.closeTopLevel = false ∧ t.selected = [some "do"] ∧
          t.closeTopLevel = false := by
  intro limits plain flagged
  obtain ⟨-, h⟩ := @ofTable_merges plain flagged limits rfl rfl
  obtain ⟨-, herror, -⟩ := h [("output", .table [("format", .integer 3)])]
  obtain ⟨-, -, hsound, hplain⟩ := h noOpeners
  obtain ⟨-, h'⟩ := @ofTable_merges flagged plain limits rfl rfl
  obtain ⟨-, -, hsound', hflagged⟩ := h' noOpeners
  have hnone : Sound noOpeners := by
    refine ⟨?_, ?_, ?_, ?_, ?_⟩
    · rintro v ⟨⟩; exact ⟨_, rfl⟩
    · rintro v ⟨⟩
    · rintro v ⟨⟩; exact ⟨[], rfl⟩
    · rintro v ⟨⟩; exact ⟨_, rfl⟩
    · rintro v ⟨⟩
  obtain ⟨s, hs⟩ := hsound.mpr hnone
  obtain ⟨t, ht⟩ := hsound'.mpr hnone
  obtain ⟨hs', -⟩ := hplain s hs
  obtain ⟨ht', -⟩ := hflagged t ht
  refine ⟨⟨_, rfl, (herror _).mp rfl⟩, s, t, hs, ht, ?_, ?_, ?_, ?_⟩
  · rw [selected, hs'.keywords]; rfl
  · rw [hs'.closeTopLevel]; rfl
  · rw [selected, ht'.keywords]; rfl
  · rw [ht'.closeTopLevel]; rfl

end Program.Settings

end OffsideRule
