import Mathlib.Algebra.GroupWithZero.Nat
import Phrasebook.Proofs.Formatter.Names
import Phrasebook.Proofs.Lexicon.Memo

/-!
# What a lexicon answers

What is compiled shows in nothing but the formatters: all else is answered from the data as they
were written. So a lexicon is some data with the formatters that are kept for them, and a derived
one is as if it were made of the merged data.
-/

namespace Phrasebook

inductive Query where
  | entry (domain key : String)
  | pattern (domain key : String)
  | has (domain key : String)
  | isCompiled (domain key : String)
  | keys (domain : String)
  | domains
  | size

inductive Reply where
  | entry (e : Option Entry)
  | pattern (p : Option String)
  | truth (b : Bool)
  | names (names : List String)
  | number (n : Nat)

def Lexicon.reply (l : Lexicon) : Query → Reply
  | .entry domain key => .entry (l.entry? domain key)
  | .pattern domain key => .pattern (l.pattern? domain key)
  | .has domain key => .truth (l.has domain key)
  | .isCompiled domain key => .truth (l.isCompiled domain key)
  | .keys domain => .names (l.keys domain)
  | .domains => .names l.domainNames
  | .size => .number l.size

namespace LexiconData

def total (data : LexiconData) : Nat := (data.values.map Table.size).sum

def reply (data : LexiconData) (kept : String → String → Option Formatter) : Query → Reply
  | .entry domain key =>
    .entry ((data.pattern? domain key).map fun pattern =>
      (kept domain key).elim (.raw pattern) .compiled)
  | .pattern domain key => .pattern (data.pattern? domain key)
  | .has domain key => .truth (data.pattern? domain key).isSome
  | .isCompiled domain key => .truth (kept domain key).isSome
  | .keys domain => .names (data.keysOf domain)
  | .domains => .names data.keys
  | .size => .number data.total

def formatter (data : LexiconData) (kept : String → String → Option Formatter)
    (r : Registry Extension) (domain key : String) : Except Phrasebook.Fault (Option Formatter) :=
  match data.pattern? domain key, kept domain key with
  | none, _ => .ok none
  | some _, some f => .ok (some f)
  | some pattern, none => (Formatter.ofPattern r pattern).map some

variable {data : LexiconData} {kept : String → String → Option Formatter} {r : Registry Extension}
  {domain key : String}

theorem formatter_none :
    data.formatter kept r domain key = .ok none ↔ data.pattern? domain key = none := by
  rw [formatter]
  cases data.pattern? domain key with
  | none => simp
  | some pattern =>
    cases kept domain key with
    | some f => simp
    | none =>
      simp only
      cases Formatter.ofPattern r pattern <;> simp [Except.map]

theorem formatter_registered (data : LexiconData) {pattern : String} {node : Pattern.Node}
    (h : data.pattern? domain key = some pattern) (hp : Pattern.parse pattern = .ok node)
    (hr : ∀ name ∈ node.calls, r.contains name) :
    ∃ f, data.formatter kept r domain key = .ok (some f) := by
  rw [formatter, h]
  cases kept domain key with
  | some f => exact ⟨f, rfl⟩
  | none =>
    obtain ⟨f, hf⟩ := Formatter.ofPattern_registered hp hr
    exact ⟨f, by simp only [hf]; rfl⟩

end LexiconData

def Entry.compile (r : Registry Extension) : Entry → Entry
  | .raw pattern => (Formatter.ofPattern r pattern).toOption.elim (.raw pattern) .compiled
  | .compiled f => .compiled f

namespace Lexicon

variable {l : Lexicon} {domain key : String} {r : Registry Extension}

theorem pattern?_source (l : Lexicon) (domain key : String) :
    LexiconData.pattern? l.source domain key = l.pattern? domain key := by
  unfold LexiconData.pattern? source pattern? entry?
  rw [Table.get?_map]
  cases l.domains.get? domain with
  | none => rfl
  | some entries => exact Table.get?_map Entry.pattern entries key

theorem keysOf_source (l : Lexicon) (domain : String) :
    LexiconData.keysOf l.source domain = l.keys domain := by
  unfold LexiconData.keysOf source keys
  rw [Table.get?_map]
  cases l.domains.get? domain with
  | none => rfl
  | some entries => exact Table.keys_map Entry.pattern entries

theorem total_source (l : Lexicon) : LexiconData.total l.source = l.size := by
  have hsum : ∀ (n : Nat) (tables : List (Table String Entry)),
      tables.foldl (fun n entries => n + entries.size) n = n + (tables.map Table.size).sum := by
    intro n tables
    induction tables generalizing n with
    | nil => rfl
    | cons t tables ih =>
      rw [List.foldl_cons, ih, List.map_cons, List.sum_cons, Nat.add_assoc]
  have hsizes : l.source.values.map Table.size = l.domains.values.map Table.size := by
    simp [source, Table.values, Table.map, Table.size, Function.comp_def]
  rw [LexiconData.total, size, hsizes, hsum, Nat.zero_add]

theorem formatter_cases (l : Lexicon) (r : Registry Extension) (domain key : String) :
    (l.entry? domain key = none ∧ l.formatter r domain key = (.ok none, l)) ∨
    (∃ f, l.entry? domain key = some (.compiled f) ∧
      l.formatter r domain key = (.ok (some f), l)) ∨
    (∃ pattern f, l.entry? domain key = some (.raw pattern) ∧
      Formatter.ofPattern r pattern = .ok f ∧
        l.formatter r domain key = (.ok (some f), l.keep domain key f)) ∨
    (∃ pattern fault, l.entry? domain key = some (.raw pattern) ∧
      Formatter.ofPattern r pattern = .error fault ∧
        l.formatter r domain key = (.error fault, l)) := by
  unfold formatter
  cases he : l.entry? domain key with
  | none => exact .inl ⟨rfl, rfl⟩
  | some x =>
    cases x with
    | compiled f => exact .inr (.inl ⟨f, rfl, rfl⟩)
    | raw pattern =>
      cases hf : Formatter.ofPattern r pattern with
      | ok f => exact .inr (.inr (.inl ⟨pattern, f, rfl, hf, by simp only [hf]⟩))
      | error fault => exact .inr (.inr (.inr ⟨pattern, fault, rfl, hf, by simp only [hf]⟩))

theorem entry_keep_raw {pattern : String} (h : l.entry? domain key = some (.raw pattern))
    (f : Formatter) (d k : String) :
    entry? (l.keep domain key f) d k =
      if domain = d ∧ key = k then some (.compiled f) else l.entry? d k := by
  obtain ⟨entries, hd, -⟩ := Option.bind_eq_some_iff.mp h
  exact entry_keep hd f d k

theorem entry_formatter (l : Lexicon) (r : Registry Extension) (domain key d k : String) :
    entry? (l.formatter r domain key).2 d k =
      if domain = d ∧ key = k then (l.entry? d k).map (Entry.compile r) else l.entry? d k := by
  have hkept : ∀ {o : Option Entry}, l.entry? domain key = o → o.map (Entry.compile r) = o →
      l.entry? d k =
        if domain = d ∧ key = k then (l.entry? d k).map (Entry.compile r) else l.entry? d k := by
    intro o ho hcompile
    split
    · rename_i heq
      rw [← heq.1, ← heq.2, ho, hcompile]
    · rfl
  obtain ⟨he, hl⟩ | ⟨f, he, hl⟩ | ⟨pattern, f, he, hf, hl⟩ | ⟨pattern, fault, he, hf, hl⟩ :=
    l.formatter_cases r domain key
  · rw [hl]
    exact hkept he rfl
  · rw [hl]
    exact hkept he rfl
  · rw [hl, entry_keep_raw he]
    split
    · rename_i heq
      rw [← heq.1, ← heq.2, he, Option.map_some, Entry.compile, hf]
      rfl
    · rfl
  · rw [hl]
    refine hkept he ?_
    rw [Option.map_some, Entry.compile, hf]
    rfl

theorem formatter_error {fault : Fault} (l : Lexicon)
    (h : (l.formatter r domain key).1 = .error fault) : (l.formatter r domain key).2 = l := by
  obtain ⟨-, hl⟩ | ⟨f, -, hl⟩ | ⟨pattern, f, -, -, hl⟩ | ⟨pattern, fault, -, -, hl⟩ :=
    l.formatter_cases r domain key
  all_goals rw [hl] at h ⊢
  contradiction

theorem formatter_entry (l : Lexicon) (r : Registry Extension) (domain key d k : String) :
    entry? (l.formatter r domain key).2 d k = l.entry? d k ∨
      domain = d ∧ key = k ∧ ∃ f, (l.formatter r domain key).1 = .ok (some f) ∧
        l.isCompiled d k = false ∧
        entry? (l.formatter r domain key).2 d k = some (.compiled f) := by
  obtain ⟨-, hl⟩ | ⟨f, -, hl⟩ | ⟨pattern, f, he, hf, hl⟩ | ⟨pattern, fault, -, -, hl⟩ :=
    l.formatter_cases r domain key
  · exact .inl (by rw [hl])
  · exact .inl (by rw [hl])
  · rw [hl, entry_keep_raw he]
    split
    · rename_i heq
      obtain ⟨rfl, rfl⟩ := heq
      exact .inr ⟨rfl, rfl, f, rfl, by rw [isCompiled, he]; rfl, rfl⟩
    · exact .inl rfl
  · exact .inl (by rw [hl])

theorem overlay_raw (base data : LexiconData) :
    overlay (base.map fun entries => entries.map .raw) data =
      (LexiconData.merge base data).map fun entries => entries.map .raw := by
  have hrow : ∀ (there : Option (Table String String)) (entries : Table String String),
      ((there.getD .empty).insertAll entries).map Entry.raw =
        ((there.map (Table.map Entry.raw)).getD .empty).insertAll (entries.map .raw) := by
    intro there entries
    rw [Table.map_insertAll]
    cases there <;> rfl
  symm
  change _ = Table.blend (fun (there : Option (Table String Entry)) (entries : Table String String) =>
    (there.getD .empty).insertAll (entries.map .raw)) (base.map (Table.map .raw)) data.entries
  exact Table.map_blend (f := Table.map Entry.raw)
    (g := fun (there : Option (Table String String)) (entries : Table String String) =>
      (there.getD .empty).insertAll entries) hrow data.entries base

theorem merge_empty (data : LexiconData) : LexiconData.merge .empty data = data := by
  have h : (ofData "" data).source = LexiconData.merge .empty data := source_overlay .empty data
  rw [← h, source_ofData]

theorem domains_ofData (tag : String) (data : LexiconData) :
    (ofData tag data).domains = data.map fun entries => entries.map .raw := by
  have h : (ofData tag data).domains =
      (LexiconData.merge .empty data).map fun entries => entries.map Entry.raw :=
    overlay_raw .empty data
  rw [h, merge_empty]

/-- A derived lexicon is as if it were made of the merged data. -/
theorem derive_eq_ofData (l : Lexicon) (tag : String) (data : LexiconData) :
    l.derive tag data = ofData tag (LexiconData.merge l.source data) := by
  have h : (l.derive tag data).domains = _ := overlay_raw l.source data
  rw [← domains_ofData tag] at h
  exact congrArg (Lexicon.mk tag) h

theorem entry_ofData (tag : String) (data : LexiconData) (domain key : String) :
    entry? (ofData tag data) domain key = (data.pattern? domain key).map .raw := by
  unfold entry?
  rw [domains_ofData, Table.get?_map, LexiconData.pattern?]
  cases data.get? domain with
  | none => rfl
  | some entries => exact Table.get?_map Entry.raw entries key

/-- The entries of a lexicon are the patterns of some data, but for the formatters that are kept. -/
structure Holds (l : Lexicon) (data : LexiconData) (kept : String → String → Option Formatter) :
    Prop where
  source : l.source = data
  entry : ∀ domain key, l.entry? domain key =
    (data.pattern? domain key).map fun pattern => (kept domain key).elim (.raw pattern) .compiled
  known : ∀ domain key, (kept domain key).isSome → (data.pattern? domain key).isSome

section Holds

variable {data : LexiconData} {kept : String → String → Option Formatter}

theorem Holds.reply (h : Holds l data kept) (q : Query) : l.reply q = data.reply kept q := by
  have hpattern : ∀ domain key, l.pattern? domain key = data.pattern? domain key :=
    fun domain key => (l.pattern?_source domain key).symm.trans (by rw [h.source])
  cases q with
  | entry domain key => exact congrArg Reply.entry (h.entry domain key)
  | pattern domain key => exact congrArg Reply.pattern (hpattern domain key)
  | has domain key =>
    have hhas : l.has domain key = (l.pattern? domain key).isSome := Option.isSome_map.symm
    exact congrArg Reply.truth (hhas.trans (by rw [hpattern]))
  | isCompiled domain key =>
    refine congrArg Reply.truth ?_
    have hknown := h.known domain key
    rw [Lexicon.isCompiled, h.entry]
    cases hk : kept domain key with
    | none => cases data.pattern? domain key <;> rfl
    | some f =>
      rw [hk] at hknown
      obtain ⟨pattern, hp⟩ := Option.isSome_iff_exists.1 (hknown rfl)
      rw [hp]
      rfl
  | keys domain =>
    exact congrArg Reply.names ((l.keysOf_source domain).symm.trans (by rw [h.source]))
  | domains =>
    have hkeys : l.source.keys = l.domainNames := Table.keys_map _ l.domains
    exact congrArg Reply.names (hkeys.symm.trans (by rw [h.source]))
  | size => exact congrArg Reply.number (l.total_source.symm.trans (by rw [h.source]))

theorem Holds.formatter (h : Holds l data kept) (r : Registry Extension) (domain key : String) :
    (l.formatter r domain key).1 = data.formatter kept r domain key := by
  rw [Lexicon.formatter, LexiconData.formatter, h.entry]
  cases data.pattern? domain key with
  | none => rfl
  | some pattern =>
    cases kept domain key with
    | some f => rfl
    | none =>
      simp only [Option.map_some, Option.elim_none]
      cases Formatter.ofPattern r pattern <;> rfl

theorem Holds.after_formatter (h : Holds l data kept) (r : Registry Extension)
    (domain key : String) {kept' : String → String → Option Formatter}
    (hkept : ∀ d k, kept' d k = (kept d k).or (if domain = d ∧ key = k then
      (data.pattern? d k).bind fun pattern => (Formatter.ofPattern r pattern).toOption else none)) :
    Holds (l.formatter r domain key).2 data kept' := by
  refine ⟨(l.compiles_formatter r domain key).source.trans h.source, fun d k => ?_, fun d k hk => ?_⟩
  · rw [entry_formatter, h.entry, hkept]
    split
    · rename_i he
      cases data.pattern? d k with
      | none => rfl
      | some pattern =>
        cases kept d k with
        | some f => rfl
        | none =>
          simp only [Option.map_some, Option.elim_none, Option.none_or, Option.bind_some,
            Entry.compile]
    · rw [Option.or_none]
  · rw [hkept] at hk
    have hknown := h.known d k
    cases hp : data.pattern? d k with
    | some pattern => rfl
    | none =>
      rw [hp] at hk hknown
      simp only [Option.bind_none, ite_self, Option.or_none] at hk
      exact hknown hk

theorem holds_ofData (tag : String) (data : LexiconData) :
    Holds (ofData tag data) data fun _ _ => none :=
  ⟨source_ofData tag data, entry_ofData tag data, nofun⟩

end Holds

end Lexicon

end Phrasebook
