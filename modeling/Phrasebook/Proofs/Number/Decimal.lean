import Mathlib.Algebra.Order.Field.Rat
import Mathlib.Data.Rat.Cast.CharZero
import Mathlib.Tactic.Linarith
import Mathlib.Tactic.NormNum
import Phrasebook.Proofs.Number.Numeral
import Phrasebook.Proofs.Pattern.Printing
import Phrasebook.Value

/-!
# The value of a decimal

A finite decimal has an exact rational value. That it is one, or zero, is seen from its coefficient
and its exponent without that value, and the text of a decimal is a numeral of the same coefficient
and exponent, so reading it back loses nothing.
-/

namespace Phrasebook

namespace Decimal

variable {negative : Bool} {c k : Nat} {e : Int} {ds : List Char}

/-- The exact value of `±c × 10 ^ e`. -/
def exact (negative : Bool) (c : Nat) (e : Int) : ℚ := (if negative then -1 else 1) * (c * 10 ^ e)

theorem exact_ofInt (n : Int) : exact (n < 0) n.natAbs 0 = n := by
  have hcast : ((n.natAbs : Int) : ℚ) = (n.natAbs : ℚ) := Int.cast_natCast _
  rw [exact, zpow_zero, mul_one, ← hcast]
  rcases Int.lt_or_le n 0 with hn | hn
  · rw [if_pos (decide_eq_true hn), Int.ofNat_natAbs_of_nonpos (Int.le_of_lt hn)]
    push_cast
    rw [neg_one_mul, neg_neg]
  · rw [if_neg (by simpa using hn), Int.natAbs_of_nonneg hn, one_mul]

theorem isZero_iff : isZero (.finite negative c e) = true ↔ exact negative c e = 0 := by
  have hpower : (10 : ℚ) ^ e ≠ 0 := zpow_ne_zero e (by norm_num)
  cases negative <;> simp [isZero, exact, hpower]

theorem exact_eq_one_iff :
    exact negative c e = 1 ↔ negative = false ∧ ∃ k : Nat, e = -k ∧ c = 10 ^ k := by
  constructor
  · intro h
    have hmagnitude : (0 : ℚ) ≤ c * 10 ^ e :=
      mul_nonneg (Nat.cast_nonneg c) (zpow_nonneg (by norm_num) e)
    cases negative with
    | true =>
      rw [exact, if_pos rfl] at h
      linarith
    | false =>
      rw [exact, if_neg Bool.false_ne_true, one_mul] at h
      refine ⟨rfl, ?_⟩
      rcases Int.lt_or_le 0 e with he | he
      · -- A positive power of ten divides the number.
        obtain ⟨k, rfl⟩ := Int.eq_succ_of_zero_lt he
        have hproduct : c * 10 ^ (k + 1) = 1 := by exact_mod_cast h
        have hpower := Nat.eq_one_of_mul_eq_one_left hproduct
        rw [Nat.pow_succ] at hpower
        omega
      · obtain ⟨k, hk⟩ := Int.eq_ofNat_of_zero_le (show 0 ≤ -e by omega)
        obtain rfl : e = -(k : Int) := by omega
        rw [zpow_neg, zpow_natCast, mul_inv_eq_one₀ (pow_ne_zero k (by norm_num))] at h
        exact ⟨k, rfl, by exact_mod_cast h⟩
  · rintro ⟨rfl, k, rfl, rfl⟩
    have hpower : (10 : ℚ) ^ k ≠ 0 := pow_ne_zero k (by norm_num)
    rw [exact, if_neg Bool.false_ne_true, one_mul, zpow_neg, zpow_natCast]
    push_cast
    exact mul_inv_cancel₀ hpower

theorem length_toDigits_pow (k : Nat) : k < (Nat.toDigits 10 (10 ^ k)).length := by
  rcases Nat.eq_zero_or_pos k with rfl | hk
  · exact Nat.length_toDigits_pos
  · rw [← Nat.not_le, Nat.length_toDigits_le_iff (by decide) hk]
    exact Nat.lt_irrefl _

theorem intText_pow {k : Nat} (h : Value.maxDigits ≤ k) : Value.intText (10 ^ k) = none := by
  rw [Value.intText_eq_none_iff, Int.natAbs_pow]
  exact Nat.lt_of_le_of_lt h (length_toDigits_pow k)

theorem isOne_iff : isOne (.finite negative c e) = true ↔ exact negative c e = 1 := by
  rw [exact_eq_one_iff]
  simp only [isOne, Bool.and_eq_true, Bool.not_eq_true', decide_eq_true_eq]
  constructor
  · rintro ⟨⟨⟨hsign, he⟩, hlength⟩, hc⟩
    rw [Nat.min_eq_left (Nat.le_of_lt hlength)] at hc
    exact ⟨hsign, e.natAbs, by omega, hc⟩
  · rintro ⟨hsign, k, rfl, hc⟩
    have hlength : k < (Nat.toDigits 10 c).length := hc ▸ length_toDigits_pow k
    rw [Int.natAbs_neg, Int.natAbs_natCast, Nat.min_eq_left (Nat.le_of_lt hlength)]
    exact ⟨⟨⟨hsign, by omega⟩, hlength⟩, hc⟩

section Text

open Numeral

theorem sign_signText (negative : Bool) : Sign (signText negative) negative := by
  cases negative
  · exact .absent
  · exact .minus

theorem numeral_zeros (h : Pattern.Numeral ds c) (k : Nat) :
    Pattern.Numeral (List.replicate k '0' ++ ds) c := by
  induction k with
  | zero => exact h
  | succ k ih =>
    obtain ⟨hne, hdigits, hvalue⟩ := ih.digits
    have hzero : Pattern.Numeral ('0' :: (List.replicate k '0' ++ ds)) _ :=
      Pattern.numeral_ofDigits (List.cons_ne_nil _ _) (List.forall_mem_cons.2 ⟨rfl, hdigits⟩)
    exact hvalue ▸ hzero

theorem magnitude_below (h : Pattern.Numeral ds c) (k : Nat) :
    Magnitude ('0' :: '.' :: List.replicate k '0' ++ ds) c (k + ds.length) := by
  have hpointed : Magnitude (['0'] ++ '.' :: (List.replicate k '0' ++ ds)) c _ :=
    .pointed (numeral_zeros h (k + 1))
  rwa [List.length_append, List.length_replicate] at hpointed

theorem magnitude_between (h : Pattern.Numeral ds c) (k : Nat) :
    Magnitude (ds.take k ++ '.' :: ds.drop k) c (ds.length - k) := by
  have hpointed : Magnitude (ds.take k ++ '.' :: ds.drop k) c _ :=
    .pointed (by rwa [List.take_append_drop])
  rwa [List.length_drop] at hpointed

theorem magnitude_first (h : Pattern.Numeral ds c) :
    Magnitude (ds.take 1 ++ if (ds.drop 1).isEmpty then [] else '.' :: ds.drop 1) c
      (ds.length - 1) := by
  split_ifs with hrest
  · have hlength : ds.length ≤ 1 := List.drop_eq_nil_iff.1 (List.isEmpty_iff.1 hrest)
    rw [List.append_nil, List.take_of_length_le hlength, Nat.sub_eq_zero_of_le hlength]
    exact .whole h
  · exact magnitude_between h 1

theorem power_exponent (a : Int) :
    Power ('E' :: (if a < 0 then '-' else '+') :: Nat.toDigits 10 a.natAbs) a := by
  have hdigits := Pattern.numeral_digits a.natAbs
  rcases Int.lt_or_le a 0 with ha | ha
  · have hpower : Power ('E' :: (['-'] ++ _)) (if true then -a.natAbs else a.natAbs) :=
      .present (.inr rfl) .minus hdigits
    rw [if_pos rfl, show -(a.natAbs : Int) = a by omega] at hpower
    rwa [if_pos ha]
  · have hpower : Power ('E' :: (['+'] ++ _)) (if false then -a.natAbs else a.natAbs) :=
      .present (.inr rfl) .plus hdigits
    rw [if_neg Bool.false_ne_true, show (a.natAbs : Int) = a by omega] at hpower
    rwa [if_neg (Int.not_lt.2 ha)]

theorem written_append {s m p : List Char} {x : Int} (hs : Sign s negative) (hm : Magnitude m c k)
    (hp : Power p x) (he : e = x - k) : Written (s ++ (m ++ p)) negative c e :=
  he ▸ .mk hs hm hp

theorem written_text : Written (text (.finite negative c e)).toList negative c e := by
  have hdigits : Pattern.Numeral (Nat.toDigits 10 c) c := Pattern.numeral_digits c
  have hlength : 0 < (Nat.toDigits 10 c).length := Nat.length_toDigits_pos
  have hsign := sign_signText negative
  simp only [text, String.toList_ofList]
  generalize Nat.toDigits 10 c = ds at hdigits hlength
  by_cases hplain : e ≤ 0 ∧ -6 ≤ (ds.length : Int) + e - 1
  · rw [if_pos hplain]
    split_ifs with he hpoint
    · subst he
      simpa using written_append hsign (.whole hdigits) .absent rfl
    · simpa using written_append hsign (magnitude_below hdigits _) .absent (by omega)
    · simpa using written_append hsign (magnitude_between hdigits _) .absent (by omega)
  · rw [if_neg hplain]
    exact written_append hsign (magnitude_first hdigits) (power_exponent _) (by omega)

theorem written_intText {n : Int} {t : String} (ht : Value.intText n = some t) :
    Written t.toList (n < 0) n.natAbs 0 := by
  have hdigits : Pattern.Numeral (Nat.toDigits 10 n.natAbs) n.natAbs :=
    Pattern.numeral_digits n.natAbs
  simp only [Value.intText, Option.ite_none_left_eq_some, Option.some.injEq] at ht
  obtain ⟨-, rfl⟩ := ht
  have hsign : Sign (if n < 0 then ['-'] else []) (n < 0) := by
    simpa [signText] using sign_signText (n < 0)
  rw [String.toList_ofList]
  simpa using written_append hsign (.whole hdigits) .absent rfl

/-- Reading the text of a decimal gives that decimal, if its exponent is in range. -/
theorem read_text (h : Fits c e) :
    Numeral.read (text (.finite negative c e)) = some (.finite negative c e) :=
  read_eq_finite_iff.2 ⟨written_text.spells, h⟩

end Text

end Decimal

end Phrasebook
