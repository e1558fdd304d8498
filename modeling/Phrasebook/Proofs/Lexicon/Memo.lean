import Phrasebook.Handle
import Phrasebook.Proofs.Lexicon.Content

/-!
# Compiling on use

A lexicon compiles a pattern when it is first used, and keeps the formatter in place of the pattern.
A lexicon in which more is compiled has the same content, and rendering from it gives the same text
or the same fault: what is kept is what compiling afresh would give. This needs the same extensions
under the same names, so it is stated for one registry.
-/

namespace Phrasebook

theorem Formatter.pattern_ofPattern {r : Registry Extension} {s : String} {f : Formatter}
    (h : ofPattern r s = .ok f) : f.pattern = s := by
  unfold ofPattern at h
  split at h
  · rename_i node _
    unfold ofNode at h
    cases hp : Program.ofNode r node with
    | error fault =>
      rw [hp] at h
      contradiction
    | ok program =>
      rw [hp] at h
      cases hs : node.expression with
      | none =>
        simp only [hs] at h
        contradiction
      | some source =>
        simp only [hs] at h
        obtain rfl := Except.ok.inj h
        rfl
  · contradiction

namespace Table

variable {κ α : Type} [DecidableEq κ]

theorem insert_self {t : Table κ α} {k : κ} {x : α} (h : t.get? k = some x) : t.insert k x = t := by
  have hk : k ∈ t.keys := (t.contains_iff k).mp (by rw [contains, h]; rfl)
  apply ext_get?
  · rw [keys_insert, if_pos hk]
  · intro j
    rw [get?_insert]
    split
    · rename_i he
      rw [← he, h]
    · rfl

end Table

/-- An entry is kept, or its pattern is compiled. -/
inductive Entry.Compiles (r : Registry Extension) : Entry → Entry → Prop where
  | kept {x} : Compiles r x x
  | compiled {pattern f} (h : Formatter.ofPattern r pattern = .ok f) :
      Compiles r (.raw pattern) (.compiled f)

theorem Entry.Compiles.trans {r : Registry Extension} {x y z : Entry} (h : Compiles r x y)
    (j : Compiles r y z) : Compiles r x z := by
  cases h with
  | kept => exact j
  | compiled h =>
    cases j with
    | kept => exact .compiled h

namespace Lexicon

/-- More is compiled in one of two lexicons than in the other, and nothing else differs. -/
structure Compiles (r : Registry Extension) (l m : Lexicon) : Prop where
  tag : m.tag = l.tag
  source : m.source = l.source
  entries : ∀ domain key,
    Option.Rel (Entry.Compiles r) (l.entry? domain key) (m.entry? domain key)

section Compiles

variable {r : Registry Extension} {l m n : Lexicon} {domain key : String}

theorem Compiles.refl (r : Registry Extension) (l : Lexicon) : Compiles r l l where
  tag := rfl
  source := rfl
  entries domain key := by
    cases l.entry? domain key with
    | none => exact .none
    | some x => exact .some .kept

theorem Compiles.trans (h : Compiles r l m) (j : Compiles r m n) : Compiles r l n where
  tag := j.tag.trans h.tag
  source := j.source.trans h.source
  entries domain key := by
    have hx := h.entries domain key
    have hy := j.entries domain key
    generalize l.entry? domain key = a, m.entry? domain key = b, n.entry? domain key = c at hx hy
    cases hx with
    | none =>
      cases hy with
      | none => exact .none
    | some hx =>
      cases hy with
      | some hy => exact .some (hx.trans hy)

theorem entry_keep {entries : Table String Entry} (h : l.domains.get? domain = some entries)
    (f : Formatter) (d k : String) :
    entry? (l.keep domain key f) d k =
      if domain = d ∧ key = k then some (.compiled f) else l.entry? d k := by
  simp only [keep, h, entry?, Table.get?_insert]
  by_cases hd : domain = d
  · subst hd
    by_cases hk : key = k
    · simp [hk]
    · simp [hk, h]
  · simp [hd]

theorem source_keep {entries : Table String Entry} (h : l.domains.get? domain = some entries)
    {f : Formatter} (hf : (entries.get? key).map Entry.pattern = some f.pattern) :
    (l.keep domain key f).source = l.source := by
  have hentries : (entries.insert key (.compiled f)).map Entry.pattern =
      entries.map Entry.pattern := by
    rw [Table.map_insert]
    apply Table.insert_self
    rw [Table.get?_map, hf]
    rfl
  simp only [keep, h, source]
  rw [Table.map_insert, hentries]
  apply Table.insert_self
  rw [Table.get?_map, h]
  rfl

theorem compiles_keep {pattern : String} {f : Formatter}
    (h : l.entry? domain key = some (.raw pattern)) (hf : Formatter.ofPattern r pattern = .ok f) :
    Compiles r l (l.keep domain key f) := by
  obtain ⟨entries, hd, hk⟩ := Option.bind_eq_some_iff.mp h
  refine ⟨?_, source_keep hd ?_, fun d k => ?_⟩
  · simp only [keep, hd]
  · rw [hk, Formatter.pattern_ofPattern hf]
    rfl
  · rw [entry_keep hd]
    split
    · rename_i he
      rw [← he.1, ← he.2, h]
      exact .some (.compiled hf)
    · exact (Compiles.refl r l).entries d k

theorem compiles_formatter (r : Registry Extension) (l : Lexicon) (domain key : String) :
    Compiles r l (l.formatter r domain key).2 := by
  unfold formatter
  split
  · exact .refl r l
  · exact .refl r l
  · rename_i pattern h
    cases hf : Formatter.ofPattern r pattern with
    | ok f => exact compiles_keep h hf
    | error fault => exact .refl r l

theorem Compiles.formatter (h : Compiles r l m) (domain key : String) :
    (m.formatter r domain key).1 = (l.formatter r domain key).1 := by
  have hentry := h.entries domain key
  unfold Lexicon.formatter
  generalize l.entry? domain key = x, m.entry? domain key = y at hentry
  cases hentry with
  | none => rfl
  | some hentry =>
    cases hentry with
    | kept =>
      rename_i x
      cases x with
      | compiled f => rfl
      | raw pattern =>
        simp only
        split <;> rfl
    | compiled hf => simp only [hf]

end Compiles

end Lexicon

namespace Handle

variable {r : Registry Extension} {l m : Lexicon}

theorem compiles_translate (h : Handle) (r : Registry Extension) (l : Lexicon) (key : String)
    (args : List Value) (domain : Option String) :
    Lexicon.Compiles r l (h.translate r l key args domain).2 := by
  unfold translate
  cases h.selectDomain args domain with
  | error fault => exact .refl r l
  | ok d =>
    have hformatter := Lexicon.compiles_formatter r l d key
    simp only [translateIn]
    generalize l.formatter r d key = x at hformatter
    rcases x with ⟨fault | _ | f, m⟩
    all_goals exact hformatter

/-- What is compiled already makes no difference to what is rendered. -/
theorem translate_of_compiles (hl : Lexicon.Compiles r l m) (h : Handle) (key : String)
    (args : List Value) (domain : Option String) :
    (h.translate r m key args domain).1 = (h.translate r l key args domain).1 := by
  unfold translate
  cases h.selectDomain args domain with
  | error fault => rfl
  | ok d =>
    have hformatter := hl.formatter d key
    simp only [translateIn]
    generalize m.formatter r d key = x at hformatter
    generalize l.formatter r d key = y at hformatter
    obtain ⟨x, _⟩ := x
    obtain ⟨y, _⟩ := y
    obtain rfl : x = y := hformatter
    rcases x with fault | _ | f
    all_goals rfl

end Handle

end Phrasebook
