import Phrasebook.Extension
import Phrasebook.Locale.Catalogue
import Phrasebook.Proofs.Number.Precision

/-!
# Numbers in the manner of a locale

Of the library of locales nothing is used but what is written about it: every locale that it knows
has a plain pattern and signs of its own, and a number is written by them. A plain number has a
sign, its groups, and as many places as it needs. Without its groups, and with a point for the
decimal sign, it is a numeral again. Whether a number is written at all depends on its size and on
the places that the pattern leaves.
-/

namespace Phrasebook

namespace Locale

/-- The signs of a locale are told apart from each other and from what else a number is made of. -/
structure Symbols.Distinct (s : Symbols) : Prop where
  group_digit : s.group.isDigit = false
  decimal_digit : s.decimal.isDigit = false
  group_decimal : s.decimal ≠ s.group
  group_minus : s.group ≠ '-'
  decimal_minus : s.decimal ≠ '-'

instance (s : Symbols) : Decidable s.Distinct :=
  decidable_of_iff
    (s.group.isDigit = false ∧ s.decimal.isDigit = false ∧ s.decimal ≠ s.group ∧ s.group ≠ '-' ∧
      s.decimal ≠ '-')
    ⟨fun ⟨h₁, h₂, h₃, h₄, h₅⟩ => ⟨h₁, h₂, h₃, h₄, h₅⟩,
      fun ⟨h₁, h₂, h₃, h₄, h₅⟩ => ⟨h₁, h₂, h₃, h₄, h₅⟩⟩

/-- A number without its groups, and with a point for the decimal sign. -/
def Symbols.ungroup (s : Symbols) (cs : List Char) : List Char :=
  (cs.filter (· ≠ s.group)).map fun c => if c = s.decimal then '.' else c

variable {s : Symbols} {ds : List Char}

theorem Symbols.ungroup_append (s : Symbols) (as bs : List Char) :
    s.ungroup (as ++ bs) = s.ungroup as ++ s.ungroup bs := by
  rw [ungroup, List.filter_append, List.map_append]
  rfl

theorem Symbols.ungroup_eq_self (h : ∀ c ∈ ds, c ≠ s.group ∧ c ≠ s.decimal) :
    s.ungroup ds = ds := by
  have hfilter : ds.filter (· ≠ s.group) = ds :=
    List.filter_eq_self.2 fun c hc => decide_eq_true (h c hc).1
  rw [ungroup, hfilter]
  exact (List.map_congr_left fun c hc => if_neg (h c hc).2).trans (List.map_id' ds)

theorem Symbols.Distinct.digit (hs : s.Distinct) {c : Char} (hc : c.isDigit = true) :
    c ≠ s.group ∧ c ≠ s.decimal := by
  constructor
  · rintro rfl
    exact Bool.false_ne_true (hs.group_digit.symm.trans hc)
  · rintro rfl
    exact Bool.false_ne_true (hs.decimal_digit.symm.trans hc)

end Locale

namespace NumberPattern

open Phrasebook.Locale Numeral

variable {p : NumberPattern} {s : Symbols} {ds fs : List Char}

/-- Patterns that write numbers as they are, with some places and in any groups. -/
structure IsPlain (p : NumberPattern) : Prop where
  positive : p.positive = ([], [])
  negative : p.negative = (['-'], [])
  digits : p.digits ≠ []
  percent : p.isPercent = false
  minWhole : p.minWhole = 1
  minFraction : p.minFraction = 0
  maxFraction : 0 < p.maxFraction ∧ p.maxFraction ≤ precision

instance (p : NumberPattern) : Decidable p.IsPlain :=
  decidable_of_iff
    (p.positive = ([], []) ∧ p.negative = (['-'], []) ∧ p.digits ≠ [] ∧ p.isPercent = false ∧
      p.minWhole = 1 ∧ p.minFraction = 0 ∧ 0 < p.maxFraction ∧ p.maxFraction ≤ precision)
    ⟨fun ⟨h₁, h₂, h₃, h₄, h₅, h₆, h₇⟩ => ⟨h₁, h₂, h₃, h₄, h₅, h₆, h₇⟩,
      fun ⟨h₁, h₂, h₃, h₄, h₅, h₆, h₇⟩ => ⟨h₁, h₂, h₃, h₄, h₅, h₆, h₇⟩⟩

theorem filter_separate (sign : Char) (others fuel size : Nat) (ds : List Char) :
    (separate sign others fuel size ds).filter (· ≠ sign) = ds.filter (· ≠ sign) := by
  induction fuel generalizing size ds with
  | zero => rfl
  | succ fuel ih =>
    by_cases hlast : ds.length ≤ size
    · rw [separate, if_pos hlast]
    · have hsign : ∀ cs : List Char, (sign :: cs).filter (· ≠ sign) = cs.filter (· ≠ sign) := by
        simp
      rw [separate, if_neg hlast]
      dsimp only
      rw [List.filter_append, ih, hsign, ← List.filter_append, List.take_append_drop]

theorem ungroup_separate (s : Symbols) (others fuel size : Nat) (ds : List Char) :
    s.ungroup (separate s.group others fuel size ds) = s.ungroup ds :=
  congrArg (List.map _) (filter_separate s.group others fuel size ds)

theorem ungroup_writeWhole (hp : p.IsPlain) (hs : s.Distinct) (hne : ds ≠ [])
    (hd : ∀ c ∈ ds, c.isDigit = true) : s.ungroup (p.writeWhole s ds) = ds := by
  have hpad : p.minWhole - ds.length = 0 := by
    rw [hp.minWhole]
    exact Nat.sub_eq_zero_of_le (List.length_pos_iff.2 hne)
  have hself : s.ungroup ds = ds := Symbols.ungroup_eq_self fun c hc => hs.digit (hd c hc)
  unfold writeWhole
  rw [hpad, List.replicate_zero, List.nil_append]
  cases p.groupSizes with
  | none => exact hself
  | some sizes => exact (ungroup_separate ..).trans hself

def trim (fs : List Char) : List Char := (fs.reverse.dropWhile (· = '0')).reverse

theorem exists_zeros (fs : List Char) : ∃ j, fs = trim fs ++ List.replicate j '0' := by
  refine ⟨(fs.reverse.takeWhile (· = '0')).length, ?_⟩
  have hzeros : (fs.reverse.takeWhile (· = '0')).reverse =
      List.replicate (fs.reverse.takeWhile (· = '0')).length '0' := by
    refine List.eq_replicate_iff.2 ⟨List.length_reverse, fun c hc => ?_⟩
    exact of_decide_eq_true (List.all_eq_true.1 List.all_takeWhile c (List.mem_reverse.1 hc))
  rw [trim, ← hzeros, ← List.reverse_append, List.takeWhile_append_dropWhile, List.reverse_reverse]

def pointed (fs : List Char) : List Char :=
  if fs.all (· = '0') then [] else '.' :: trim fs

theorem ungroup_writeFraction (hp : p.IsPlain) (hs : s.Distinct) (hd : ∀ c ∈ fs, c.isDigit = true) :
    s.ungroup (p.writeFraction s fs) = pointed fs := by
  have hplaces : p.maxFraction ≠ 0 := Nat.ne_of_gt hp.maxFraction.1
  unfold writeFraction pointed
  rw [hp.minFraction, Nat.zero_sub, List.replicate_zero, List.append_nil]
  by_cases hzeros : fs.all (· = '0') = true
  · rw [if_pos (.inr ⟨rfl, hzeros⟩), if_pos hzeros]
    rfl
  · have hwritten : ¬ (p.maxFraction = 0 ∨ (0 = 0 ∧ fs.all (· = '0') = true)) := by
      rintro (h | ⟨-, h⟩)
      · exact hplaces h
      · exact hzeros h
    have htrim : s.ungroup (trim fs) = trim fs := by
      obtain ⟨j, hj⟩ := exists_zeros fs
      refine Symbols.ungroup_eq_self fun c hc => hs.digit (hd c ?_)
      rw [hj]
      exact List.mem_append_left _ hc
    have hpoint : s.ungroup [s.decimal] = ['.'] := by
      simp [Symbols.ungroup, hs.group_decimal]
    rw [if_neg hwritten, if_neg hzeros, List.take_zero, List.drop_zero, ← List.singleton_append,
      Symbols.ungroup_append, hpoint]
    exact congrArg (['.'] ++ ·) htrim

section Places

variable {places q : Nat}

theorem ofDigits_append (as bs : List Char) :
    Text.ofDigits (as ++ bs) = 10 ^ bs.length * Text.ofDigits as + Text.ofDigits bs :=
  (Nat.ofDigitChars_append 0).trans Nat.ofDigitChars_eq_ofDigitChars_zero

theorem ofDigits_zeros (ds : List Char) (j : Nat) :
    Text.ofDigits (ds ++ List.replicate j '0') = 10 ^ j * Text.ofDigits ds :=
  (Nat.ofDigitChars_append 0).trans Nat.ofDigitChars_replicate_zero

theorem digitsAround_eq (hplaces : 0 < places) (q : Nat) :
    ∃ W F, digitsAround places q = (W, F) ∧ Pattern.Numeral W (q / 10 ^ places) ∧
      Pattern.Numeral F (q % 10 ^ places) ∧ F.length = places := by
  have hlength : (Nat.toDigits 10 (q % 10 ^ places)).length ≤ places :=
    (Nat.length_toDigits_le_iff (by decide) hplaces).2 (Nat.mod_lt q (by positivity))
  refine ⟨_, _, rfl, Pattern.numeral_digits _, ?_, ?_⟩
  · rw [if_neg (Nat.ne_of_gt hplaces)]
    exact Decimal.numeral_zeros (Pattern.numeral_digits _) _
  · rw [if_neg (Nat.ne_of_gt hplaces), List.length_append, List.length_replicate]
    exact Nat.sub_add_cancel hlength

theorem magnitude_pointed {W F : List Char} (hplaces : F.length = places)
    (hw : Pattern.Numeral W (q / 10 ^ places)) (hf : Pattern.Numeral F (q % 10 ^ places)) :
    ∃ k j, Magnitude (W ++ pointed F) k j ∧ j ≤ places ∧ k * 10 ^ (places - j) = q := by
  obtain ⟨hne, hdigits, hwhole⟩ := hw.digits
  obtain ⟨-, hplacesDigits, hpart⟩ := hf.digits
  have hsplit := Nat.div_add_mod q (10 ^ places)
  have htotal : Text.ofDigits (W ++ F) = q := by
    rw [ofDigits_append, hplaces, hwhole, hpart, hsplit]
  obtain ⟨i, hi⟩ := exists_zeros F
  have hlength : (trim F).length + i = places := by
    rw [← hplaces, hi, List.length_append, List.length_replicate, ← hi]
  unfold pointed
  split_ifs with hzeros
  · have hnone : F = List.replicate places '0' := by
      refine List.eq_replicate_iff.2 ⟨hplaces, fun c hc => ?_⟩
      exact of_decide_eq_true (List.all_eq_true.1 hzeros c hc)
    rw [List.append_nil]
    refine ⟨q / 10 ^ places, 0, .whole hw, Nat.zero_le _, ?_⟩
    rw [hnone, ofDigits_zeros, hwhole] at htotal
    rwa [Nat.sub_zero, Nat.mul_comm]
  · have htrim : ∀ c ∈ trim F, c.isDigit = true := by
      intro c hc
      apply hplacesDigits
      rw [hi]
      exact List.mem_append_left _ hc
    have hnumeral := Pattern.numeral_ofDigits (List.append_ne_nil_of_left_ne_nil hne _)
      (List.forall_mem_append.2 ⟨hdigits, htrim⟩)
    refine ⟨_, _, .pointed hnumeral, by omega, ?_⟩
    rw [hi, ← List.append_assoc, ofDigits_zeros] at htotal
    rwa [show places - (trim F).length = i by omega, Nat.mul_comm]

end Places

section Writing

variable {negative : Bool} {c : Nat} {e : Int}

theorem writeDigits_finite (hp : p.IsPlain) (s : Symbols) (negative : Bool) (c : Nat) (e : Int) :
    p.writeDigits s (.finite negative c e) =
      if isInRange (toPrecision c e).1 (toPrecision c e).2 then
        (quantize p.maxFraction (toPrecision c e).1 (toPrecision c e).2).map fun q =>
          p.writeWhole s (digitsAround p.maxFraction q).1 ++
            p.writeFraction s (digitsAround p.maxFraction q).2
      else .error .outOfRange := by
  have hpercent : ¬ p.isPercent = true := by
    rw [hp.percent]
    exact Bool.false_ne_true
  rw [writeDigits, if_neg hpercent]
  rcases toPrecision c e with ⟨m, x⟩
  dsimp only
  cases isInRange m x with
  | false => rfl
  | true =>
    cases quantize p.maxFraction m x <;> rfl

theorem write_eq (hp : p.IsPlain) {digits : List Char}
    (hd : p.writeDigits s (.finite negative c e) = .ok digits) :
    p.write s (.finite negative c e) =
      .ok (String.ofList (Decimal.signText negative ++ digits)) := by
  rw [write, hd]
  cases negative <;>
    simp [Decimal.isNegative, hp.positive, hp.negative, hp.digits, Decimal.signText, bind,
      Except.bind, pure, Except.pure]

/-- A text that is a numeral once its groups are joined, of a number that is at most `11 / 20` of a
place away. -/
def Reads (s : Symbols) (places : Nat) (negative : Bool) (c : Nat) (e : Int) (t : String) : Prop :=
  ∃ k j, Written (s.ungroup t.toList) negative k (-(j : Nat)) ∧ j ≤ places ∧ k < 10 ^ precision ∧
    |inPlaces places k (-(j : Nat)) - inPlaces places c e| ≤ 11 / 20

theorem ungroup_signText (hs : s.Distinct) :
    s.ungroup (Decimal.signText negative) = Decimal.signText negative := by
  apply Symbols.ungroup_eq_self
  cases negative
  · simp [Decimal.signText]
  · exact List.forall_mem_singleton.2 ⟨hs.group_minus.symm, hs.decimal_minus.symm⟩

theorem write_below (hp : p.IsPlain) (hs : s.Distinct) (negative : Bool)
    (h : inPlaces p.maxFraction c e < limit) :
    ∃ t, p.write s (.finite negative c e) = .ok t ∧ Reads s p.maxFraction negative c e t := by
  obtain ⟨q, hquantize, hfits, hnear⟩ := quantize_toPrecision p.maxFraction c e
  have hq := hfits.2 h
  rw [if_pos hq] at hquantize
  obtain ⟨W, F, haround, hw, hf, hlength⟩ := digitsAround_eq hp.maxFraction.1 q
  have hdigits := writeDigits_finite hp s negative c e
  rw [isInRange_of_quantize hquantize, if_pos rfl, hquantize, Except.map, haround] at hdigits
  obtain ⟨k, j, hmagnitude, hj, hk⟩ := magnitude_pointed hlength hw hf
  refine ⟨_, write_eq hp hdigits, k, j, ?_, hj, ?_, ?_⟩
  · rw [String.toList_ofList, Symbols.ungroup_append, Symbols.ungroup_append, ungroup_signText hs,
      ungroup_writeWhole hp hs hw.digits.1 hw.digits.2.1, ungroup_writeFraction hp hs hf.digits.2.1]
    have hwritten := Decimal.written_append (e := -(j : Int)) (Decimal.sign_signText negative)
      hmagnitude .absent (by omega)
    rwa [List.append_nil] at hwritten
  · exact (Nat.le_mul_of_pos_right k (by positivity)).trans_lt (hk.trans_lt hq)
  · have hsame : inPlaces p.maxFraction k (-(j : Int)) = q := by
      rw [inPlaces_whole (k := p.maxFraction - j) (by omega), hk]
    rw [hsame]
    exact hnear hq

theorem write_above (hp : p.IsPlain) (s : Symbols) (negative : Bool)
    (h : limit ≤ inPlaces p.maxFraction c e) :
    p.write s (.finite negative c e) =
      .error (if isInRange (toPrecision c e).1 (toPrecision c e).2 then .tooManyDigits
        else .outOfRange) := by
  obtain ⟨q, hquantize, hfits, -⟩ := quantize_toPrecision p.maxFraction c e
  rw [if_neg (hfits.not.2 (not_lt.2 h))] at hquantize
  rw [write, writeDigits_finite hp, hquantize]
  split_ifs <;> rfl

example : (ofText "#,##0.###").write ⟨',', '.'⟩ (.finite true 12345678 (-4)) =
    .ok "-1.234,568" := by rfl

theorem write_infinite (hp : p.IsPlain) :
    p.write s (.infinite negative) = .ok (if negative then "-∞" else "∞") := by
  cases negative <;>
    simp [write, writeDigits, Decimal.isNegative, hp.positive, hp.negative, hp.digits, bind,
      Except.bind, pure, Except.pure]

theorem write_quiet (p : NumberPattern) (s : Symbols) (negative : Bool) (payload : Nat) :
    ∃ t, p.write s (.notANumber negative false payload) = .ok t := by
  simp [write, writeDigits, bind, Except.bind, pure, Except.pure]

theorem write_signal (p : NumberPattern) (s : Symbols) (payload : Nat) :
    p.write s (.notANumber negative true payload) = .error .signal := rfl

end Writing

end NumberPattern

/-! ## Libraries -/

namespace Locale.Library

/-- What is written about a locale of a library: numbers that have a text are written by a plain
pattern, with the signs of the locale, unless another pattern is asked for. -/
structure Writes (b : Library) (locale : String) (p : NumberPattern) (symbols : Symbols) :
    Prop where
  plain : p.IsPlain
  distinct : symbols.Distinct
  int {n : Int} (h : (Text.digits n.natAbs).length ≤ Value.maxDigits) :
    b.formatDecimal (.int n) none locale = written (p.write symbols (.ofInt n))
  decimal (d : Decimal) : b.formatDecimal (.decimal d) none locale = written (p.write symbols d)

/-- The same of all locales that a library knows. -/
def Documented (b : Library) : Prop :=
  ∀ code locale, b.parse code = some locale → ∃ p symbols, b.Writes locale p symbols

theorem exists_parse_localeOf (b : Library) (tag : String) :
    ∃ code, b.parse code = some (b.localeOf tag) := by
  unfold localeOf
  cases hparse : b.parse (toCode tag) with
  | none => exact ⟨fallbackCode, (Option.some_get b.parse_fallback).symm⟩
  | some locale => exact ⟨_, hparse⟩

theorem find?_code : ∀ k ∈ known, find? k.code = some k := by decide +kernel

theorem plain_known : ∀ k ∈ known, k.symbols.Distinct ∧ k.standard.IsPlain := by decide +kernel

theorem catalogue_writes {k : Known} (hk : k ∈ known) :
    catalogue.Writes k.code k.standard k.symbols := by
  obtain ⟨hdistinct, hplain⟩ := plain_known k hk
  have hformat : ∀ {v d}, decimalOf v = .ok d →
      catalogue.formatDecimal v none k.code = written (k.standard.write k.symbols d) := by
    intro v d hd
    simp [catalogue, find?_code k hk, hd, bind, Except.bind]
  refine ⟨hplain, hdistinct, fun {n} hn => hformat ?_, fun d => hformat rfl⟩
  have htext : (Value.intText n).isSome = true :=
    Option.isSome_iff_ne_none.2 (Value.intText_eq_none_iff.not.2 (Nat.not_lt.2 hn))
  rw [decimalOf, if_pos htext]

theorem catalogue_documented : catalogue.Documented := by
  intro code locale h
  obtain ⟨k, hk, rfl⟩ := Option.map_eq_some_iff.1 h
  exact ⟨_, _, catalogue_writes (List.mem_of_find?_eq_some hk)⟩

end Locale.Library

namespace Extension

open NumberPattern Decimal

/-- The number that stands behind a value: an integer that can be written, a decimal, or what a text
spells. -/
inductive Stands : Value → Decimal → Prop
  | int {n : Int} (h : (Text.digits n.natAbs).length ≤ Value.maxDigits) : Stands (.int n) (.ofInt n)
  | decimal (d : Decimal) : Stands (.decimal d) d
  | text {s : String} {d : Decimal} (h : Numeral.read s = some d) : Stands (.text s) d

def rendered : Except NumberPattern.Fault String → Outcome Value
  | .ok t => .ok (.text t)
  | .error .outOfRange => .fail .numberRange
  | .error _ => .fail .numberFormat

variable {b : Locale.Library} {p : NumberPattern} {symbols : Locale.Symbols} {v : Value}
  {d : Decimal} {s : String}

theorem writeNumber_eq (h : Handle) (q : Option (List Value → Outcome Value))
    {x : Except NumberPattern.Fault String}
    (hv : b.formatDecimal v none (b.localeOf h.tag) = Locale.written x) :
    writeNumber b ⟨.handle h, q⟩ v .none = rendered x := by
  have hpattern : numberPattern .none = .ok none := rfl
  have hlocale : Context.locale ⟨.handle h, q⟩ b = .ok (b.localeOf h.tag) := rfl
  rw [writeNumber]
  simp only [hpattern, hlocale, hv, Outcome.bind_eq, Outcome.ok_andThen]
  cases x with
  | ok t => rfl
  | error fault => cases fault <;> rfl

theorem formatNumber_text {c : Context} (hs : s ≠ "") (format : Value) :
    formatNumber b c (.text s) format = writeNumeral b c (.text s) format := by
  unfold formatNumber
  split <;> simp_all

/-- A number is rendered by the pattern of the locale, however it is given. -/
theorem numf_stands (h : Handle) (q : Option (List Value → Outcome Value))
    (hb : b.Writes (b.localeOf h.tag) p symbols) (hv : Stands v d) :
    numf b ⟨.handle h, q⟩ [v] = rendered (p.write symbols d) := by
  cases hv with
  | int hn => exact writeNumber_eq h q (hb.int hn)
  | decimal d => exact writeNumber_eq h q (hb.decimal d)
  | @text s d hread =>
    have hs : s ≠ "" := by
      rintro rfl
      have hempty : Numeral.read "" = none := by decide
      exact Option.some_ne_none d (hread.symm.trans hempty)
    have hplain : (Value.text s).plain = some s := rfl
    rw [numf, formatNumber_text hs, writeNumeral, hplain]
    simp only [Outcome.ofText, Outcome.bind_eq, Outcome.ok_andThen, hread]
    exact writeNumber_eq h q (hb.decimal d)

theorem inPlaces_eq (places : Nat) (negative : Bool) (c : Nat) (e : Int) :
    inPlaces places c e = |exact negative c e| * 10 ^ places := by
  have hpos : (0 : ℚ) ≤ c * 10 ^ e := mul_nonneg (Nat.cast_nonneg c) (zpow_nonneg (by norm_num) e)
  have habs : |exact negative c e| = c * 10 ^ e := by
    rw [exact]
    cases negative <;> simp [abs_of_nonneg hpos]
  rw [habs, inPlaces, zpow_add₀ (by norm_num), zpow_natCast, mul_assoc]

theorem abs_exact_sub (places : Nat) (negative : Bool) (c k : Nat) (e f : Int) :
    |exact negative k f - exact negative c e| * 10 ^ places =
      |inPlaces places k f - inPlaces places c e| := by
  have hplaces : ∀ (m : Nat) (x : Int), inPlaces places m x = m * 10 ^ x * 10 ^ places := by
    intro m x
    rw [inPlaces, zpow_add₀ (by norm_num), zpow_natCast, mul_assoc]
  have hpos : (0 : ℚ) < 10 ^ places := by positivity
  rw [hplaces, hplaces, ← sub_mul, abs_mul, abs_of_pos hpos, exact, exact, ← mul_sub, abs_mul]
  cases negative <;> simp

theorem below_iff (places : Nat) (negative : Bool) (c : Nat) (e : Int) :
    |exact negative c e| < limit / 10 ^ places ↔ inPlaces places c e < limit := by
  rw [inPlaces_eq places negative, lt_div_iff₀ (by positivity)]

theorem read_of_reads {places : Nat} (hplaces : places ≤ precision) {negative : Bool} {c : Nat}
    {e : Int} {t : String} (h : Reads symbols places negative c e t) :
    ∃ k f, Numeral.read (String.ofList (symbols.ungroup t.toList)) = some (.finite negative k f) ∧
      |exact negative k f - exact negative c e| ≤ 11 / 20 / 10 ^ places := by
  obtain ⟨k, j, hwritten, hj, hk, hnear⟩ := h
  refine ⟨k, -(j : Int), Numeral.read_eq_finite_iff.2 ⟨?_, ?_⟩, ?_⟩
  · rw [String.toList_ofList]
    exact hwritten.spells
  · have hdigits := (Number.digitCount_le_iff (show 0 < precision by decide)).2 hk
    have hprecision : precision = 28 := rfl
    rw [hprecision] at hplaces
    rw [Number.digitCount, hprecision] at hdigits
    constructor
    · simp only [Numeral.smallestExponent]
      omega
    · simp only [Numeral.largestExponent]
      split_ifs <;> omega
  · rw [le_div_iff₀ (by positivity), abs_exact_sub places negative]
    exact hnear

theorem numf_unread (b : Locale.Library) (h : Handle) (q : Option (List Value → Outcome Value))
    (hs : s ≠ "") (hread : Numeral.read s = none) :
    numf b ⟨.handle h, q⟩ [.text s] = ⟨[.notNumber (Text.quoted s)], .ok (.text s)⟩ := by
  have hplain : (Value.text s).plain = some s := rfl
  rw [numf, formatNumber_text hs, writeNumeral, hplain]
  simp only [Outcome.ofText, Outcome.bind_eq, Outcome.ok_andThen, hread]
  rfl

section Finite

variable {negative : Bool} {c : Nat} {e : Int}

theorem numf_below (h : Handle) (q : Option (List Value → Outcome Value))
    (hb : b.Writes (b.localeOf h.tag) p symbols) (hv : Stands v (.finite negative c e))
    (hbelow : |exact negative c e| < limit / 10 ^ p.maxFraction) :
    ∃ t k f, numf b ⟨.handle h, q⟩ [v] = .ok (.text t) ∧
      Numeral.read (String.ofList (symbols.ungroup t.toList)) = some (.finite negative k f) ∧
      |exact negative k f - exact negative c e| ≤ 11 / 20 / 10 ^ p.maxFraction := by
  have hlimit := (below_iff p.maxFraction negative c e).1 hbelow
  obtain ⟨t, ht, hreads⟩ := write_below hb.plain hb.distinct negative hlimit
  obtain ⟨k, f, hread, hnear⟩ := read_of_reads hb.plain.maxFraction.2 hreads
  refine ⟨t, k, f, ?_, hread, hnear⟩
  rw [numf_stands h q hb hv, ht]
  rfl

theorem numf_above (h : Handle) (q : Option (List Value → Outcome Value))
    (hb : b.Writes (b.localeOf h.tag) p symbols) (hv : Stands v (.finite negative c e))
    (habove : limit / 10 ^ p.maxFraction ≤ |exact negative c e|) :
    numf b ⟨.handle h, q⟩ [v] = .fail
      (if isInRange (toPrecision c e).1 (toPrecision c e).2 then .numberFormat
        else .numberRange) := by
  have hlimit : limit ≤ inPlaces p.maxFraction c e := by
    rw [← not_lt, ← below_iff p.maxFraction negative, not_lt]
    exact habove
  rw [numf_stands h q hb hv, write_above hb.plain _ negative hlimit]
  split_ifs <;> rfl

end Finite

/-- With a library that keeps to what is written about it, a number is rendered, for any tag and
however it is given, exactly if it has no more than 28 digits once it is rounded to the places of
the pattern of the locale: what is written is then a numeral, but for its groups, that is at most
`11 / 20` of the last place away from it. A greater number stops the rendering, and so does a number
that signals. What is no number is rendered as it is, and nothing as nothing. -/
theorem numf_renders (b : Locale.Library) (hb : b.Documented) (h : Handle)
    (q : Option (List Value → Outcome Value)) :
    (∃ p symbols, b.Writes (b.localeOf h.tag) p symbols) ∧
    ∀ p symbols, b.Writes (b.localeOf h.tag) p symbols →
    let render := fun v => numf b ⟨.handle h, q⟩ [v]
    (render .none = .ok (.text "") ∧ render (.text "") = .ok (.text "")) ∧
    (∀ s, s ≠ "" → Numeral.read s = none →
      render (.text s) = ⟨[.notNumber (Text.quoted s)], .ok (.text s)⟩) ∧
    (∀ v negative c e, Stands v (.finite negative c e) →
      (|exact negative c e| < limit / 10 ^ p.maxFraction → ∃ t k f, render v = .ok (.text t) ∧
        Numeral.read (String.ofList (symbols.ungroup t.toList)) = some (.finite negative k f) ∧
        |exact negative k f - exact negative c e| ≤ 11 / 20 / 10 ^ p.maxFraction) ∧
      (limit / 10 ^ p.maxFraction ≤ |exact negative c e| → render v = .fail
        (if isInRange (toPrecision c e).1 (toPrecision c e).2 then .numberFormat
          else .numberRange))) ∧
    (∀ v negative, Stands v (.infinite negative) →
      render v = .ok (.text (if negative then "-∞" else "∞"))) ∧
    (∀ v negative payload, Stands v (.notANumber negative false payload) →
      ∃ t, render v = .ok (.text t)) ∧
    ∀ v negative payload, Stands v (.notANumber negative true payload) →
      render v = .fail .numberFormat := by
  obtain ⟨code, hcode⟩ := b.exists_parse_localeOf h.tag
  refine ⟨hb code _ hcode, fun p symbols hw => ?_⟩
  refine ⟨⟨rfl, rfl⟩, fun s hs hread => numf_unread b h q hs hread,
    fun v negative c e hv => ⟨numf_below h q hw hv, numf_above h q hw hv⟩,
    fun v negative hv => ?_, fun v negative payload hv => ?_, fun v negative payload hv => ?_⟩
  · have hrender := numf_stands h q hw hv
    rw [write_infinite hw.plain] at hrender
    exact hrender
  · obtain ⟨t, ht⟩ := write_quiet p symbols negative payload
    refine ⟨t, ?_⟩
    have hrender := numf_stands h q hw hv
    rw [ht] at hrender
    exact hrender
  · have hrender := numf_stands h q hw hv
    rw [write_signal] at hrender
    exact hrender

/-- On both sides of the limit: a text of more than 28 digits, and an integer of fewer. -/
theorem numf_renders_boundary :
    let h : Handle := ⟨0, "de", "*", .marker⟩
    let p : NumberPattern := .ofText "#,##0.###"
    let symbols : Locale.Symbols := ⟨',', '.'⟩
    let render := fun v => numf .catalogue ⟨.handle h, none⟩ [v]
    let below : Value := .text "9999999999999999999999999.9994"
    let c := 99999999999999999999999999994
    Locale.Library.catalogue.Documented ∧
    Locale.Library.catalogue.Writes (Locale.Library.catalogue.localeOf h.tag) p symbols ∧
    Stands below (.finite false c (-4)) ∧ |exact false c (-4)| < limit / 10 ^ p.maxFraction ∧
    (∃ t k f, render below = .ok (.text t) ∧
      Numeral.read (String.ofList (symbols.ungroup t.toList)) = some (.finite false k f) ∧
      |exact false k f - exact false c (-4)| ≤ 11 / 20 / 10 ^ p.maxFraction) ∧
    Stands (.int (10 ^ 25)) (.finite false (10 ^ 25) 0) ∧
    limit / 10 ^ p.maxFraction ≤ |exact false (10 ^ 25) 0| ∧
    render (.int (10 ^ 25)) = .fail .numberFormat := by
  intro h p symbols render below c
  have hlocale : Locale.Library.catalogue.localeOf h.tag = "de" := by decide +kernel
  have hwrites : Locale.Library.catalogue.Writes
      (Locale.Library.catalogue.localeOf h.tag) p symbols := by
    rw [hlocale]
    exact Locale.Library.catalogue_writes (k := ⟨"de", ⟨',', '.'⟩, false⟩) (by decide)
  obtain ⟨-, hrenders⟩ := numf_renders .catalogue Locale.Library.catalogue_documented h none
  obtain ⟨-, -, hfinite, -⟩ := hrenders p symbols hwrites
  have hplaces : p.maxFraction = 3 := by decide
  have hbelow : Stands below (.finite false c (-4)) := .text (by decide +kernel)
  have habove : Stands (.int (10 ^ 25)) (.finite false (10 ^ 25) 0) := .int (by decide +kernel)
  have hsmall : |exact false c (-4)| < limit / 10 ^ p.maxFraction := by
    rw [below_iff, inPlaces, hplaces, limit]
    norm_num [c, precision]
  have hlarge : limit / 10 ^ p.maxFraction ≤ |exact false (10 ^ 25) 0| := by
    rw [← not_lt, below_iff, inPlaces, hplaces, limit]
    norm_num [precision]
  have hrange : isInRange (toPrecision (10 ^ 25) 0).1 (toPrecision (10 ^ 25) 0).2 = true := by
    decide +kernel
  refine ⟨Locale.Library.catalogue_documented, hwrites, hbelow, hsmall,
    (hfinite _ _ _ _ hbelow).1 hsmall, habove, hlarge, ?_⟩
  have hfail := (hfinite _ _ _ _ habove).2 hlarge
  rwa [hrange, if_pos rfl] at hfail

end Extension

end Phrasebook
