import Phrasebook.Locale.Catalogue
import Phrasebook.Proofs.Number.Decimal
import Phrasebook.Proofs.Quantity.Inert

/-!
# The choice of a form

The form for a count is chosen by the exact value of the count, however it is given: as an integer,
as a decimal of any exponent or as a text that spells a number. A count that is no finite number
takes the form for many. Nothing is chosen only for a count that is, or holds, an integer that is
too long to be written, since every count is looked at through its text.
-/

namespace Phrasebook

namespace Value

/-- A value that is an integer of too many digits, or holds one somewhere. -/
inductive Overlong : Value → Prop
  | int {n} (h : maxDigits < (Text.digits n.natAbs).length) : Overlong (.int n)
  | list {items v} (hv : v ∈ items) (h : Overlong v) : Overlong (.list items)
  | tuple {items v} (hv : v ∈ items) (h : Overlong v) : Overlong (.tuple items)
  | key {rows row} (hrow : row ∈ rows) (h : Overlong row.1) : Overlong (.map rows)
  | entry {rows row} (hrow : row ∈ rows) (h : Overlong row.2) : Overlong (.map rows)

mutual

theorem quoted_eq_none_iff : (v : Value) → (v.quoted = .none ↔ Overlong v)
  | none => iff_of_false (by simp [quoted]) (by rintro ⟨⟩)
  | bool b => iff_of_false (by simp [quoted]) (by rintro ⟨⟩)
  | int n => by
    rw [quoted, intText_eq_none_iff]
    exact ⟨.int, by rintro ⟨h⟩; exact h⟩
  | float x => iff_of_false (by simp [quoted]) (by rintro ⟨⟩)
  | decimal d => iff_of_false (by simp [quoted]) (by rintro ⟨⟩)
  | text s => iff_of_false (by simp [quoted]) (by rintro ⟨⟩)
  | list items => by
    have htext : (list items).quoted = .none ↔ quotedAll items = .none := by
      rw [quoted]
      cases quotedAll items <;> simp
    rw [htext, quotedAll_eq_none_iff items]
    constructor
    · rintro ⟨v, hv, h⟩
      exact .list hv h
    · rintro ⟨⟩
      exact ⟨_, ‹_›, ‹_›⟩
  | tuple items => by
    have htext : (tuple items).quoted = .none ↔ quotedAll items = .none := by
      rw [quoted]
      cases quotedAll items <;> simp
    rw [htext, quotedAll_eq_none_iff items]
    constructor
    · rintro ⟨v, hv, h⟩
      exact .tuple hv h
    · rintro ⟨⟩
      exact ⟨_, ‹_›, ‹_›⟩
  | map rows => by
    have htext : (map rows).quoted = .none ↔ quotedRows rows = .none := by
      rw [quoted]
      cases quotedRows rows <;> simp
    rw [htext, quotedRows_eq_none_iff rows]
    constructor
    · rintro ⟨row, hrow, h | h⟩
      · exact .key hrow h
      · exact .entry hrow h
    · rintro ⟨⟩
      · exact ⟨_, ‹_›, .inl ‹_›⟩
      · exact ⟨_, ‹_›, .inr ‹_›⟩
  | handle h => iff_of_false (by simp [quoted]) (by rintro ⟨⟩)

theorem quotedAll_eq_none_iff :
    (items : List Value) → (quotedAll items = .none ↔ ∃ v ∈ items, Overlong v)
  | [] => by simp [quotedAll]
  | v :: vs => by
    simp only [List.mem_cons, exists_eq_or_imp, ← quoted_eq_none_iff v, ← quotedAll_eq_none_iff vs,
      quotedAll]
    cases v.quoted <;> cases quotedAll vs <;> simp

theorem quotedRows_eq_none_iff : (rows : List (Value × Value)) →
    (quotedRows rows = .none ↔ ∃ row ∈ rows, Overlong row.1 ∨ Overlong row.2)
  | [] => by simp [quotedRows]
  | (k, v) :: rows => by
    simp only [List.mem_cons, exists_eq_or_imp, ← quoted_eq_none_iff k, ← quoted_eq_none_iff v,
      ← quotedRows_eq_none_iff rows, quotedRows]
    cases k.quoted <;> cases v.quoted <;> cases quotedRows rows <;> simp

end

theorem plain_eq_none_iff {v : Value} : v.plain = .none ↔ Overlong v := by
  rw [← quoted_eq_none_iff]
  cases v with
  | text s => simp [plain, quoted]
  | decimal d => simp [plain, quoted]
  | _ => rfl

end Value

namespace Quantity

open Numeral Decimal

/-- A count that is a finite number, and its exact value. -/
inductive Exact : Value → ℚ → Prop
  | int {n : Int} (h : (Text.digits n.natAbs).length ≤ Value.maxDigits) : Exact (.int n) n
  | decimal {negative c e} (h : Fits c e) :
      Exact (.decimal (.finite negative c e)) (exact negative c e)
  | text {s : String} {negative c e} (hs : Spells s.toList negative c e) (h : Fits c e) :
      Exact (.text s) (exact negative c e)

/-- A count that is no finite number. -/
inductive Numberless : Value → Prop
  | none : Numberless .none
  | bool (b) : Numberless (.bool b)
  | float {x} (h : ∀ b, Number.magnitude x ≠ .finite b) : Numberless (.float x)
  | infinite (negative) : Numberless (.decimal (.infinite negative))
  | notANumber (negative signalling payload) :
      Numberless (.decimal (.notANumber negative signalling payload))
  | text {s : String} (h : ∀ negative c e, Spells s.toList negative c e → ¬ Fits c e) :
      Numberless (.text s)
  | list (items) : Numberless (.list items)
  | tuple (items) : Numberless (.tuple items)
  | map (rows) : Numberless (.map rows)
  | handle (h) : Numberless (.handle h)

/-- The form that a value calls for: the form for one, the form for none if there is one with a text
in it, and otherwise the form for many, in whose place the form for one may stand. -/
def formFor (q : ℚ) (singular : String) (plural zero : Option String) : String :=
  if q = 1 then singular
  else if q = 0 then ((zero.filter (· ≠ "")).or plural).getD singular
  else plural.getD singular

variable {count : Value} {s singular : String} {plural zero : Option String} {q : ℚ}
  {negative : Bool} {c : Nat} {e : Int}

theorem fits_int {n : Int} (h : (Text.digits n.natAbs).length ≤ Value.maxDigits) :
    Fits n.natAbs 0 := by
  simp only [Value.maxDigits, Text.digits] at h
  constructor
  · decide
  · split_ifs
    · decide
    · simp only [largestExponent]
      omega

/-- Counts of one value are read as decimals of that value. -/
theorem Exact.read (h : Exact count q) :
    ∃ s negative c e, count.plain = some s ∧ Numeral.read s = some (.finite negative c e) ∧
      exact negative c e = q := by
  cases h with
  | @int n h =>
    obtain ⟨s, hs⟩ : ∃ s, Value.intText n = some s :=
      Option.ne_none_iff_exists'.1 (Value.intText_eq_none_iff.not.2 (Nat.not_lt.2 h))
    exact ⟨s, _, _, _, hs, read_eq_finite_iff.2 ⟨(written_intText hs).spells, fits_int h⟩,
      exact_ofInt n⟩
  | decimal h => exact ⟨_, _, _, _, rfl, read_text h, rfl⟩
  | text hs h => exact ⟨_, _, _, _, rfl, read_eq_finite_iff.2 ⟨hs, h⟩, rfl⟩

theorem read_ne_finite {x : Char} (hx : x ∈ s.toList) (hforeign : mayStand x = false) :
    Numeral.read s ≠ some (.finite negative c e) := by
  intro h
  have hmay := (read_eq_finite_iff.1 h).1.mayStand x hx
  exact Bool.false_ne_true (hforeign.symm.trans hmay)

theorem read_ne_finite_of_bind {α : Type} {o : Option α} {f : α → String} {x : Char}
    (hs : (do return f (← o)) = some s) (hx : ∀ a, x ∈ (f a).toList) (hforeign : mayStand x = false) :
    Numeral.read s ≠ some (.finite negative c e) := by
  obtain ⟨a, -, ha⟩ := Option.bind_eq_some_iff.1 hs
  obtain rfl := Option.some.inj ha
  exact read_ne_finite (hx a) hforeign

theorem Numberless.read (h : Numberless count) (hs : count.plain = some s) :
    Numeral.read s ≠ some (.finite negative c e) := by
  cases h with
  | none =>
    obtain rfl := Option.some.inj hs
    exact read_ne_finite (x := 'N') (by decide) (by decide)
  | bool b =>
    obtain rfl := Option.some.inj hs
    cases b
    · exact read_ne_finite (x := 'F') (by decide) (by decide)
    · exact read_ne_finite (x := 'T') (by decide) (by decide)
  | @float x h =>
    obtain rfl := Option.some.inj hs
    refine read_ne_finite (x := 'n') ?_ (by decide)
    simp only [Number.floatText, Number.writeFloat]
    split
    · decide
    · simp
    · exact absurd ‹_› (h _)
  | infinite negative =>
    obtain rfl := Option.some.inj hs
    exact read_ne_finite (x := 'I') (by simp [Decimal.text]) (by decide)
  | notANumber negative signalling payload =>
    obtain rfl := Option.some.inj hs
    refine read_ne_finite (x := 'N') ?_ (by decide)
    cases signalling <;> simp [Decimal.text]
  | text h =>
    obtain rfl := Option.some.inj hs
    intro hread
    obtain ⟨hspells, hfits⟩ := read_eq_finite_iff.1 hread
    exact h _ _ _ hspells hfits
  | list items =>
    simp only [Value.plain, Value.quoted] at hs
    exact read_ne_finite_of_bind (x := '[') hs (by simp) (by decide)
  | tuple items =>
    simp only [Value.plain, Value.quoted] at hs
    exact read_ne_finite_of_bind (x := '(') hs (by simp) (by decide)
  | map rows =>
    simp only [Value.plain, Value.quoted] at hs
    exact read_ne_finite_of_bind (x := '\x7b') hs (by simp) (by decide)
  | handle h =>
    obtain rfl := Option.some.inj hs
    exact read_ne_finite (parenthesis_mem_text h) (by decide)

theorem choose_read (hs : count.plain = some s) (singular : String) (plural zero : Option String) :
    choose count (.text singular) (formValue plural) (formValue zero) =
      .ok (.text (if (Numeral.read s).any isOne then singular
        else if (Numeral.read s).any isZero then
          ((zero.filter (· ≠ "")).or plural).getD singular
        else plural.getD singular)) := by
  simp only [choose, hs]
  by_cases hone : (Numeral.read s).any isOne = true
  · rw [if_pos hone, if_pos hone]
  · rw [if_neg hone, if_neg hone]
    cases plural <;> cases zero with
    | none => cases (Numeral.read s).any isZero <;> rfl
    | some form =>
      by_cases hform : form = "" <;> cases (Numeral.read s).any isZero <;>
        simp [formValue, Value.holds, hform, Option.filter]

theorem choose_exact (h : Exact count q) (singular : String) (plural zero : Option String) :
    choose count (.text singular) (formValue plural) (formValue zero) =
      .ok (.text (formFor q singular plural zero)) := by
  obtain ⟨s, negative, c, e, hs, hread, rfl⟩ := h.read
  simp only [choose_read hs, hread, Option.any_some, formFor, isOne_iff, isZero_iff]

theorem finite_of_seen {d : Decimal} (h : isOne d = true ∨ isZero d = true) :
    ∃ negative c e, d = .finite negative c e := by
  cases d with
  | finite => exact ⟨_, _, _, rfl⟩
  | _ => rcases h with h | h <;> cases h

theorem Numberless.any {p : Decimal → Bool} (h : Numberless count) (hs : count.plain = some s)
    (hp : ∀ d, p d = true → ∃ negative c e, d = .finite negative c e) :
    ¬ (Numeral.read s).any p = true := by
  rw [Option.any_eq_true]
  rintro ⟨d, hread, hd⟩
  obtain ⟨negative, c, e, rfl⟩ := hp d hd
  exact h.read hs hread

theorem choose_numberless (h : Numberless count) (hs : count.plain = some s) (singular : String)
    (plural zero : Option String) :
    choose count (.text singular) (formValue plural) (formValue zero) =
      .ok (.text (plural.getD singular)) := by
  rw [choose_read hs, if_neg (h.any hs fun d hd => finite_of_seen (.inl hd)),
    if_neg (h.any hs fun d hd => finite_of_seen (.inr hd))]

/-- Only an integer that cannot be written keeps a form from being chosen. -/
theorem choose_error_iff {fault : Fault} :
    choose count (.text singular) (formValue plural) (formValue zero) = .error fault ↔
      count.Overlong ∧ fault = .longNumber := by
  rw [← Value.plain_eq_none_iff]
  cases hs : count.plain with
  | none => simp [choose, hs, eq_comm]
  | some s => simp [choose_read hs]

end Quantity

open Quantity in
/-- A quantity chooses its form by the exact value of the count, however the count is given. A count
that is no finite number takes the form for many; that is never the form for none, and the form for
one only where it stands for many. What keeps a form from being chosen is an integer of too many
digits that the count is or holds, and nothing else. -/
theorem Handle.quantify_by_value (h : Handle) (r : Registry Extension) (singular : String)
    (plural zero : Option String) :
    let chosen := fun count => choose count (.text singular) (formValue plural) (formValue zero)
    let answer := fun count =>
      h.quantify r [count, .text singular, formValue plural, formValue zero]
    let written := writeForm r (contexts r h stackSize) stackSize
    (∀ count q, Exact count q →
      let form := formFor q singular plural zero
      chosen count = .ok (.text form) ∧ answer count = written form count) ∧
    (∀ count other q, Exact count q → Exact other q → chosen count = chosen other) ∧
    (∀ count, Numberless count → ¬ count.Overlong →
      let form := plural.getD singular
      chosen count = .ok (.text form) ∧ answer count = written form count) ∧
    (∀ count fault, chosen count = .error fault ↔ count.Overlong ∧ fault = .longNumber) ∧
    ∀ count, count.Overlong → answer count = .fail .longNumber := by
  intro chosen answer written
  have hwritten : ∀ count form, chosen count = .ok (.text form) →
      answer count = written form count := by
    intro count form hchosen
    simp only [answer, Handle.quantify, writeAll, write, chosen] at hchosen ⊢
    rw [hchosen]
    exact Outcome.ok_andThen _ _
  refine ⟨fun count q hq => ?_, fun count other q hcount hother => ?_, fun count hn hshort => ?_,
    fun count fault => choose_error_iff, fun count hlong => ?_⟩
  · have hchosen := choose_exact hq singular plural zero
    exact ⟨hchosen, hwritten count _ hchosen⟩
  · exact (choose_exact hcount singular plural zero).trans
      (choose_exact hother singular plural zero).symm
  · obtain ⟨s, hs⟩ := Option.ne_none_iff_exists'.1 (Value.plain_eq_none_iff.not.2 hshort)
    have hchosen := choose_numberless hn hs singular plural zero
    exact ⟨hchosen, hwritten count _ hchosen⟩
  · have hchosen : chosen count = .error .longNumber := choose_error_iff.2 ⟨hlong, rfl⟩
    simp only [answer, Handle.quantify, writeAll, write, chosen] at hchosen ⊢
    rw [hchosen]
    rfl

open Quantity Numeral Decimal in
/-- Two spellings of one, of which one has digits of another script, a zero that has a sign and
decimal places, and a text that is no number. -/
theorem Handle.quantify_by_value_spellings :
    let h : Handle := ⟨0, "en", "*", .marker⟩
    let answer := fun count => h.quantify (.builtins .catalogue)
      [count, .text "_1 file", .text "_1 files", .text "no files"]
    (Exact (.decimal (.finite false 100 (-2))) 1 ∧
      answer (.decimal (.finite false 100 (-2))) = .ok (.text "1.00 file")) ∧
    (Exact (.text " \u0661_0e-\u0661") 1 ∧
      answer (.text " \u0661_0e-\u0661") = .ok (.text " \u0661_0e-\u0661 file")) ∧
    (Exact (.text "-0.00") 0 ∧ answer (.text "-0.00") = .ok (.text "no files")) ∧
    Numberless (.text "half") ∧ ¬ Value.Overlong (.text "half") ∧
      answer (.text "half") = .ok (.text "half files") := by
  intro h answer
  have hwrite : ∀ count t form u, count.rendered = some t → Simple form →
      writtenForm h t form = u →
      writeForm (.builtins .catalogue) (contexts (.builtins .catalogue) h stackSize) stackSize form
        count = .ok (.text u) := by
    rintro count t form _ ht hs rfl
    exact writeForm_simple (by decide) rfl ht hs
  have hone : Simple "_1 file" := ⟨by decide, by decide⟩
  have hmany : Simple "_1 files" := ⟨by decide, by decide⟩
  have hnone : Simple "no files" := ⟨by decide, by decide⟩
  have hdecimal : Exact (.decimal (.finite false 100 (-2))) 1 := by
    have hvalue : exact false 100 (-2) = 1 := isOne_iff.1 (by decide)
    exact hvalue ▸ .decimal (by decide)
  have htext : Exact (.text " \u0661_0e-\u0661") 1 := by
    have hvalue : exact false 10 (-1) = 1 := isOne_iff.1 (by decide)
    obtain ⟨hspells, hfits⟩ := read_eq_finite_iff.1
      (show Numeral.read " \u0661_0e-\u0661" = some (.finite false 10 (-1)) by decide +kernel)
    exact hvalue ▸ .text hspells hfits
  have hzero : Exact (.text "-0.00") 0 := by
    have hvalue : exact true 0 (-2) = 0 := isZero_iff.1 (by decide)
    obtain ⟨hspells, hfits⟩ := read_eq_finite_iff.1
      (show Numeral.read "-0.00" = some (.finite true 0 (-2)) by decide +kernel)
    exact hvalue ▸ .text hspells hfits
  have hhalf : Numberless (.text "half") := .text fun _ _ _ hspells _ =>
    absurd (hspells.mayStand 'h' (by decide)) (by decide)
  have hshort : ¬ Value.Overlong (.text "half") := by rintro ⟨⟩
  obtain ⟨hnumber, -, hother, -, -⟩ :=
    quantify_by_value h (.builtins .catalogue) "_1 file" (some "_1 files") (some "no files")
  have hformOne : formFor 1 "_1 file" (some "_1 files") (some "no files") = "_1 file" := if_pos rfl
  have hformNone : formFor 0 "_1 file" (some "_1 files") (some "no files") = "no files" := by
    rw [formFor, if_neg zero_ne_one, if_pos rfl]
    decide
  refine ⟨⟨hdecimal, ?_⟩, ⟨htext, ?_⟩, ⟨hzero, ?_⟩, hhalf, hshort, ?_⟩
  · refine (hnumber _ 1 hdecimal).2.trans ?_
    rw [hformOne]
    exact hwrite _ "1.00" _ _ (by decide) hone (by decide)
  · refine (hnumber _ 1 htext).2.trans ?_
    rw [hformOne]
    exact hwrite _ _ _ _ rfl hone (by decide)
  · refine (hnumber _ 0 hzero).2.trans ?_
    rw [hformNone]
    exact hwrite _ _ _ _ rfl hnone (by decide)
  · exact (hother _ hhalf hshort).2.trans (hwrite _ _ _ _ rfl hmany (by decide))

end Phrasebook
