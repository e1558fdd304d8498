import Mathlib.Data.List.Permutation
import Phrasebook.Document
import Phrasebook.Proofs.Loading.Rejection

/-!
# Reading documents

Two shapes of documents overlap: a document that wraps data is itself a mapping, and might be taken
for data with a domain `lexicon`. The keys alone tell the shapes apart, before any data are looked
at. Whatever is read then has the shape that a lexicon is made of.
-/

namespace Phrasebook

namespace Value

variable {s : String} {v w : Value} {rows : List (Value × Value)}

theorem same_text_iff : v.same (.text s) ↔ v = .text s := by
  cases v <;> simp [same, number?]

theorem row?_text_eq_none_iff : row? (.text s) rows = .none ↔ ∀ row ∈ rows, row.1 ≠ .text s := by
  induction rows with
  | nil => simp [row?]
  | cons row rows ih =>
    obtain ⟨k, v⟩ := row
    rw [row?, List.forall_mem_cons, ← ih]
    by_cases hk : k = .text s
    · simp [hk, same]
    · simp [same_text_iff, hk]

theorem mem_of_row?_text (h : row? (.text s) rows = some v) : (.text s, v) ∈ rows := by
  induction rows with
  | nil => contradiction
  | cons row rows ih =>
    obtain ⟨k, w⟩ := row
    rw [row?] at h
    split at h
    · rename_i hk
      rw [same_text_iff.mp hk, Option.some.inj h]
      exact List.mem_cons_self
    · exact List.mem_cons_of_mem _ (ih h)

theorem ne_map_of_mem (h : (v, w) ∈ rows) : w ≠ .map rows := by
  intro he
  have hpair : sizeOf w < sizeOf (v, w) := by simp only [Prod.mk.sizeOf_spec]; omega
  have hsize := Nat.lt_trans hpair (List.sizeOf_lt_of_mem h)
  have hmap : sizeOf w = 1 + sizeOf rows := by rw [he, map.sizeOf_spec]
  omega

end Value

namespace Document

open LexiconData (WellShaped)

variable {document data v : Value} {b : Option String} {r : Resource}
  {rows : List (Value × Value)}

theorem isPartName_iff : isPartName v ↔ v = .text "lexicon" ∨ v = .text "base" := by
  cases v <;> simp [isPartName]

/-- A mapping with the key `lexicon`, perhaps the key `base`, and no others. -/
structure Wraps (rows : List (Value × Value)) : Prop where
  lexicon : ∃ row ∈ rows, row.1 = .text "lexicon"
  others : ∀ row ∈ rows, row.1 = .text "lexicon" ∨ row.1 = .text "base"

theorem all_isPartName_iff :
    rows.all (isPartName ·.1) ↔ ∀ row ∈ rows, row.1 = .text "lexicon" ∨ row.1 = .text "base" := by
  simp only [List.all_eq_true, isPartName_iff]

theorem parts_of_wraps (h : Wraps rows) (hd : Value.row? (.text "lexicon") rows = some data) :
    parts (.map rows) = (data, (Value.row? (.text "base") rows).getD .none) := by
  simp only [parts, hd, if_pos (all_isPartName_iff.mpr h.others)]

theorem Wraps.row? (h : Wraps rows) : ∃ data, Value.row? (.text "lexicon") rows = some data := by
  obtain ⟨row, hrow, hkey⟩ := h.lexicon
  refine Option.ne_none_iff_exists'.mp fun hnone => ?_
  exact Value.row?_text_eq_none_iff.mp hnone row hrow hkey

theorem parts_of_not_wraps (h : ¬ Wraps rows) : parts (.map rows) = (.map rows, .none) := by
  cases hd : Value.row? (.text "lexicon") rows with
  | none => simp only [parts, hd]
  | some data =>
    have hothers : ¬ rows.all (isPartName ·.1) := fun hall =>
      h ⟨⟨_, Value.mem_of_row?_text hd, rfl⟩, all_isPartName_iff.mp hall⟩
    simp only [parts, hd, if_neg hothers]

theorem checkBase_eq_ok_iff :
    checkBase v = .ok b ↔ v = .none ∧ b = none ∨ ∃ s, s ≠ "" ∧ v = .text s ∧ b = some s := by
  unfold checkBase
  split
  · simp [eq_comm]
  · rename_i s
    by_cases hs : s = ""
    · simp [hs]
    · simp [hs, eq_comm]
  · rename_i hnone htext
    cases hq : v.quoted with
    | some shown => simp_all
    | none => simp_all

/-- What is read are the parts of a document, once both are checked. -/
theorem read_eq_ok_iff : read document = .ok r ↔
    r.data = (parts document).1 ∧ checkBase (parts document).2 = .ok r.base ∧
      WellShaped r.data := by
  obtain ⟨data, base⟩ := r
  unfold read
  rcases parts document with ⟨d, v⟩
  rw [← LexiconData.ofValue_ok_iff]
  dsimp only
  cases hb : checkBase v with
  | error f => simp [bind, Except.bind]
  | ok b =>
    constructor
    · intro h
      cases hd : LexiconData.ofValue d with
      | ok entries =>
        simp only [hd, bind, Except.bind, pure, Except.pure] at h
        cases h
        exact ⟨rfl, rfl, entries, hd⟩
      | error f =>
        simp only [hd, bind, Except.bind] at h
        split at h <;> contradiction
    · rintro ⟨rfl, hbase, entries, hd⟩
      cases hbase
      simp only [hd, bind, Except.bind, pure, Except.pure]

theorem shaped_of_read (h : read document = .ok r) : WellShaped r.data :=
  (read_eq_ok_iff.mp h).2.2

theorem base_of_read (h : read document = .ok r) : r.base ≠ some "" := by
  obtain ⟨-, hbase, -⟩ := read_eq_ok_iff.mp h
  rcases checkBase_eq_ok_iff.mp hbase with ⟨-, hnone⟩ | ⟨s, hs, -, hsome⟩
  · rw [hnone]
    exact nofun
  · rw [hsome]
    exact fun he => hs (Option.some.inj he)

theorem read_of_wraps {s : String} (h : Wraps rows)
    (hd : Value.row? (.text "lexicon") rows = some data)
    (hb : Value.row? (.text "base") rows = some (.text s)) (hs : s ≠ "")
    (hshape : WellShaped data) : read (.map rows) = .ok ⟨data, some s⟩ := by
  rw [read_eq_ok_iff, parts_of_wraps h hd, hb]
  exact ⟨rfl, checkBase_eq_ok_iff.mpr (.inr ⟨s, hs, rfl, rfl⟩), hshape⟩

theorem read_wrapped {s : String}
    (hrows : rows.Perm [(.text "lexicon", data), (.text "base", .text s)]) (hs : s ≠ "")
    (hshape : WellShaped data) : read (.map rows) = .ok ⟨data, some s⟩ := by
  have hwraps : Wraps rows := by
    constructor
    · exact ⟨_, hrows.mem_iff.mpr List.mem_cons_self, rfl⟩
    · intro row hrow
      rcases List.mem_pair.mp (hrows.mem_iff.mp hrow) with rfl | rfl
      · exact Or.inl rfl
      · exact Or.inr rfl
  rcases List.perm_pair.mp hrows with rfl | rfl
  · exact read_of_wraps hwraps rfl rfl hs hshape
  · exact read_of_wraps hwraps rfl rfl hs hshape

/-- Data come back as they are, unless their domains look like the keys of a document. -/
theorem read_bare_iff (hshape : WellShaped (.map rows)) :
    read (.map rows) = .ok ⟨.map rows, none⟩ ↔ ¬ Wraps rows := by
  constructor
  · intro h hwraps
    -- a document that wraps data is read as what it wraps, which is smaller
    obtain ⟨inner, hinner⟩ := hwraps.row?
    have hdata := (read_eq_ok_iff.mp h).1
    rw [parts_of_wraps hwraps hinner] at hdata
    exact Value.ne_map_of_mem (Value.mem_of_row?_text hinner) hdata.symm
  · intro hbare
    rw [read_eq_ok_iff, parts_of_not_wraps hbare]
    exact ⟨rfl, rfl, hshape⟩

end Document

end Phrasebook
