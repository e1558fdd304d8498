import Mathlib.Algebra.Order.Field.Power
import Mathlib.Tactic.FieldSimp
import Mathlib.Tactic.Ring
import Phrasebook.Locale.NumberFormat
import Phrasebook.Proofs.Number.Decimal

/-!
# Rounding to places

A number is rounded twice before it is written: to 28 significant digits, and then to the places of
the pattern. Both together fail exactly where the number, rounded to the places at once, would have
more than 28 digits, and otherwise are off by little more than half a place.
-/

namespace Phrasebook

namespace Number

variable {num den k n : Nat}

theorem lt_pow_digitCount (n : Nat) : n < 10 ^ digitCount n :=
  (Nat.length_toDigits_le_iff (by decide) Nat.length_toDigits_pos).1 (Nat.le_refl _)

theorem digitCount_le_iff (hk : 0 < k) : digitCount n ≤ k ↔ n < 10 ^ k :=
  Nat.length_toDigits_le_iff (by decide) hk

theorem pow_le_of_digitCount (hn : 0 < n) (hk : k < digitCount n) : 10 ^ k ≤ n := by
  rcases Nat.eq_zero_or_pos k with rfl | hpos
  · exact hn
  · exact Nat.not_lt.1 ((digitCount_le_iff hpos).not.1 (Nat.not_le.2 hk))

theorem roundHalfEven_bounds (num : Nat) (hden : 0 < den) :
    2 * num ≤ 2 * (roundHalfEven num den * den) + den ∧
      2 * (roundHalfEven num den * den) ≤ 2 * num + den := by
  have hdiv := Nat.div_add_mod' num den
  have hmod := Nat.mod_lt num hden
  have hparity := Nat.mod_two_eq_zero_or_one (num / den)
  unfold roundHalfEven
  generalize num / den = q at *
  have hnext : (q + 1) * den = q * den + den := Nat.succ_mul q den
  dsimp only
  split_ifs
  · omega
  · omega
  · rcases hparity with hq | hq
    · rw [hq, Nat.add_zero]
      omega
    · rw [hq]
      omega

theorem le_roundHalfEven_iff (num : Nat) (hden : 0 < den) (hk : k % 2 = 0) :
    k ≤ roundHalfEven num den ↔ 2 * (k * den) ≤ 2 * num + den := by
  obtain ⟨hlow, hhigh⟩ := roundHalfEven_bounds num hden
  constructor
  · intro h
    have hmul := Nat.mul_le_mul_right den h
    omega
  · intro h
    have hdiv := Nat.div_add_mod' num den
    have hmod := Nat.mod_lt num hden
    have hparity := Nat.mod_two_eq_zero_or_one (num / den)
    unfold roundHalfEven
    generalize num / den = q at *
    have hbehind : k ≤ q + 1 := by
      by_contra hgap
      have hmul := Nat.mul_le_mul_right den (show q + 2 ≤ k by omega)
      rw [Nat.add_mul] at hmul
      omega
    dsimp only
    split_ifs with hbelow
    · by_contra hgap
      have hmul := Nat.mul_le_mul_right den (show q + 1 ≤ k by omega)
      rw [Nat.add_mul] at hmul
      omega
    · exact hbehind
    · rcases hparity with hq | hq <;> omega

theorem abs_roundHalfEven_sub (num : Nat) (hden : 0 < den) :
    |(roundHalfEven num den : ℚ) - num / den| ≤ 1 / 2 := by
  obtain ⟨hlow, hhigh⟩ := roundHalfEven_bounds num hden
  have hpos : (0 : ℚ) < den := Nat.cast_pos.2 hden
  have hlow' : 2 * (num : ℚ) ≤ 2 * (roundHalfEven num den * den) + den := by exact_mod_cast hlow
  have hhigh' : 2 * (roundHalfEven num den * den : ℚ) ≤ 2 * num + den := by exact_mod_cast hhigh
  rw [abs_le, sub_le_iff_le_add, neg_le_sub_iff_le_add]
  constructor
  · rw [div_le_iff₀ hpos]
    linarith
  · rw [← sub_le_iff_le_add', le_div_iff₀ hpos]
    linarith

end Number

namespace NumberPattern

open Number

variable {places c q : Nat} {e : Int}

def inPlaces (places c : Nat) (e : Int) : ℚ := c * 10 ^ (e + places)

theorem inPlaces_whole {k : Nat} (hk : e + places = k) :
    inPlaces places c e = (c * 10 ^ k : Nat) := by
  rw [inPlaces, hk, zpow_natCast]
  push_cast
  rfl

theorem inPlaces_part {k : Nat} (hk : e + places = -k) :
    inPlaces places c e = (c : ℚ) / (10 ^ k : Nat) := by
  rw [inPlaces, hk, zpow_neg, zpow_natCast]
  push_cast
  rfl

theorem shifted_digits {k n : Nat} (hc : 0 < c) : n < digitCount c + k ↔ ¬ c * 10 ^ k < 10 ^ n := by
  rw [Nat.not_lt]
  constructor
  · intro h
    rcases Nat.le_total n k with hk | hk
    · exact (Nat.pow_le_pow_right (by decide) hk).trans (Nat.le_mul_of_pos_left _ hc)
    · have hlow := pow_le_of_digitCount hc (show n - k < digitCount c by omega)
      have hmul := Nat.mul_le_mul_right (10 ^ k) hlow
      rwa [← Nat.pow_add, Nat.sub_add_cancel hk] at hmul
  · intro h
    by_contra hfew
    have hmul := Nat.mul_lt_mul_of_pos_right (lt_pow_digitCount c) (show 0 < 10 ^ k by positivity)
    rw [← Nat.pow_add] at hmul
    have hpow := Nat.pow_le_pow_right (show 0 < 10 by decide) (show digitCount c + k ≤ n by omega)
    omega

theorem abs_small {k : Nat} (hk : digitCount c + 1 < k) :
    |((0 : Nat) : ℚ) - (c : ℚ) / (10 ^ k : Nat)| ≤ 1 / 2 := by
  have hpow : 2 * 10 ^ digitCount c ≤ 10 ^ k :=
    calc 2 * 10 ^ digitCount c ≤ 10 ^ digitCount c * 10 := by omega
      _ = 10 ^ (digitCount c + 1) := (Nat.pow_succ ..).symm
      _ ≤ 10 ^ k := Nat.pow_le_pow_right (by decide) (Nat.le_of_lt hk)
  have hsmall : 2 * c ≤ 10 ^ k := by
    have hlt := lt_pow_digitCount c
    omega
  have hpos : (0 : ℚ) < (10 ^ k : Nat) := Nat.cast_pos.2 (by positivity)
  have hcast : 2 * (c : ℚ) ≤ (10 ^ k : Nat) := by exact_mod_cast hsmall
  rw [Nat.cast_zero, zero_sub, abs_neg, abs_of_nonneg (div_nonneg (Nat.cast_nonneg c) hpos.le),
    div_le_iff₀ hpos]
  linarith

/-- Places are rounded to nearest, and fail where there are too many digits then. -/
theorem quantize_nearest (places c : Nat) (e : Int) :
    ∃ q : Nat, |(q : ℚ) - inPlaces places c e| ≤ 1 / 2 ∧
      (0 ≤ e + places → (q : ℚ) = inPlaces places c e) ∧
      quantize places c e = if q < 10 ^ precision then .ok q else .error .tooManyDigits := by
  by_cases hc : c = 0
  · subst hc
    refine ⟨0, ?_, fun _ => ?_, ?_⟩
    · simp [inPlaces]
    · simp [inPlaces]
    · rw [if_pos (by decide)]
      simp [quantize]
  rcases Int.lt_or_le (e + places) 0 with hs | hs
  · obtain ⟨k, hk⟩ := Int.eq_ofNat_of_zero_le (show 0 ≤ -(e + places) by omega)
    have hpart := inPlaces_part (c := c) (show e + places = -(k : Int) by omega)
    have hshift : (e + places).natAbs = k := by omega
    rw [quantize, if_neg hc, if_neg (Int.not_le.2 hs), hshift, hpart]
    split_ifs with hsmall
    · exact ⟨0, abs_small hsmall, fun h => absurd h (Int.not_le.2 hs), (if_pos (by decide)).symm⟩
    · refine ⟨_, abs_roundHalfEven_sub c (by positivity), fun h => absurd h (Int.not_le.2 hs), ?_⟩
      have hlong : precision < digitCount (roundHalfEven c (10 ^ k)) ↔
          ¬ roundHalfEven c (10 ^ k) < 10 ^ precision := by
        rw [← digitCount_le_iff (show 0 < precision by decide), Nat.not_le]
      exact (if_congr hlong rfl rfl).trans (ite_not ..)
  · obtain ⟨k, hk⟩ := Int.eq_ofNat_of_zero_le hs
    have hwhole := inPlaces_whole (c := c) hk
    refine ⟨c * 10 ^ k, ?_, fun _ => hwhole.symm, ?_⟩
    · rw [hwhole, sub_self, abs_zero]
      norm_num
    · have hdigits := shifted_digits (k := k) (n := precision) (Nat.pos_of_ne_zero hc)
      have hlong : (precision : Int) < digitCount c + (e + places) ↔
          ¬ c * 10 ^ k < 10 ^ precision := by
        rw [← hdigits]
        omega
      have hshift : (e + places).toNat = k := by omega
      rw [quantize, if_neg hc, if_pos hs, hshift]
      exact (if_congr hlong rfl rfl).trans (ite_not ..)

theorem roundHalfEven_one (c : Nat) : roundHalfEven c 1 = c := by
  simp [roundHalfEven, Nat.mod_one]

theorem toPrecision_short (h : digitCount c ≤ precision) : toPrecision c e = (c, e) := by
  have hextra : digitCount c - precision = 0 := Nat.sub_eq_zero_of_le h
  rw [toPrecision, hextra]
  exact Prod.ext (roundHalfEven_one c) (Int.add_zero e)

theorem toPrecision_long (h : precision < digitCount c) : ∃ x : Nat,
    toPrecision c e = (roundHalfEven c (10 ^ x), e + x) ∧
      10 ^ (precision - 1) * 10 ^ x ≤ c ∧ c < 10 ^ precision * 10 ^ x := by
  refine ⟨digitCount c - precision, rfl, ?_, ?_⟩
  · have hpos : 0 < c := by
      rcases Nat.eq_zero_or_pos c with rfl | hc
      · exact absurd h (by decide)
      · exact hc
    have hone : 0 < precision := by decide
    rw [← Nat.pow_add]
    exact pow_le_of_digitCount hpos (by omega)
  · rw [← Nat.pow_add, Nat.add_sub_cancel' (Nat.le_of_lt h)]
    exact lt_pow_digitCount c

theorem inPlaces_scaled (x : Nat) :
    inPlaces places c e = (c : ℚ) / (10 ^ x : Nat) * 10 ^ (e + x + places) := by
  have hpower : (10 : ℚ) ^ (e + x + places) = 10 ^ (e + places) * 10 ^ x := by
    rw [show e + x + places = e + places + x by ring, zpow_add₀ (by norm_num), zpow_natCast]
  have hpos : (10 : ℚ) ^ x ≠ 0 := by positivity
  rw [inPlaces, hpower]
  push_cast
  rw [div_mul_eq_mul_div, ← mul_assoc, mul_div_assoc, div_self hpos, mul_one]

theorem abs_toPrecision (places c : Nat) (e : Int) (x : Nat) :
    |inPlaces places (roundHalfEven c (10 ^ x)) (e + x) - inPlaces places c e| ≤
      1 / 2 * 10 ^ (e + x + places) := by
  have hpos : (0 : ℚ) < 10 ^ (e + x + places) := zpow_pos (by norm_num) _
  rw [inPlaces_scaled (c := c) x, inPlaces, ← sub_mul, abs_mul, abs_of_pos hpos]
  exact mul_le_mul_of_nonneg_right (abs_roundHalfEven_sub c (by positivity)) hpos.le

/-- The greatest number of places that has 28 digits, and half a place. -/
def limit : ℚ := 10 ^ precision - 1 / 2

theorem tenth_of_limit : limit = 10 * 10 ^ (precision - 1) - 1 / 2 := by
  rw [limit, ← pow_succ']
  rfl

theorem whole_fits {q : Nat} {y : ℚ} (hy : q = y) : q < 10 ^ precision ↔ y < limit := by
  rw [limit, ← hy]
  constructor
  · intro h
    have hnext : (q : ℚ) + 1 ≤ 10 ^ precision := by exact_mod_cast h
    linarith
  · intro h
    have hless : (q : ℚ) < 10 ^ precision := by linarith
    exact_mod_cast hless

theorem small_fits {q : Nat} {y : ℚ} (hy : y ≤ 10 ^ (precision - 1))
    (hq : |(q : ℚ) - y| ≤ 11 / 20) : q < 10 ^ precision ∧ y < limit := by
  have hone : (1 : ℚ) ≤ 10 ^ (precision - 1) := one_le_pow₀ (by norm_num)
  have hfits : y + 11 / 20 < limit := by
    rw [tenth_of_limit]
    linarith
  constructor
  · have hless : (q : ℚ) < 10 ^ precision := by
      rw [limit] at hfits
      linarith [(abs_le.1 hq).2]
    exact_mod_cast hless
  · linarith

theorem round_fits {x : Nat} :
    roundHalfEven c (10 ^ x) < 10 ^ precision ↔ (c : ℚ) / (10 ^ x : Nat) < limit := by
  have hpos : (0 : ℚ) < (10 ^ x : Nat) := Nat.cast_pos.2 (by positivity)
  have heven : 10 ^ precision % 2 = 0 := by decide
  rw [← Nat.not_le, le_roundHalfEven_iff c (by positivity) heven, Nat.not_le, div_lt_iff₀ hpos,
    limit, ← @Nat.cast_lt ℚ]
  push_cast
  constructor <;> intro h <;> linarith

theorem tenth_power {t : Int} (ht : t < 0) : (10 : ℚ) ^ t ≤ 1 / 10 := by
  have hmono := zpow_le_zpow_right₀ (show (1 : ℚ) ≤ 10 by norm_num) (show t ≤ -1 by omega)
  rwa [zpow_neg_one, inv_eq_one_div] at hmono

theorem small_product {u : ℚ} {t : Int} (hu : u ≤ 10 ^ precision) (ht : t < 0) :
    u * 10 ^ t ≤ 10 ^ (precision - 1) := by
  have hdigits : (10 : ℚ) ^ precision * (1 / 10) = 10 ^ (precision - 1) := by
    rw [show precision = precision - 1 + 1 by decide, pow_succ, Nat.add_sub_cancel]
    ring
  rw [← hdigits]
  exact mul_le_mul hu (tenth_power ht) (zpow_nonneg (by norm_num) t) (by positivity)

theorem large_product {u : ℚ} {t : Int} (hu : 10 ^ (precision - 1) ≤ u) (ht : 0 < t) :
    limit ≤ u * 10 ^ t := by
  have hpower : (10 : ℚ) ≤ 10 ^ t := by
    have hmono := zpow_le_zpow_right₀ (show (1 : ℚ) ≤ 10 by norm_num) (show 1 ≤ t by omega)
    rwa [zpow_one] at hmono
  have hproduct : (10 : ℚ) ^ (precision - 1) * 10 ≤ u * 10 ^ t :=
    mul_le_mul hu hpower (by norm_num) ((by positivity : (0 : ℚ) ≤ 10 ^ (precision - 1)).trans hu)
  rw [tenth_of_limit]
  linarith

/-- Rounded twice, a number fits just as it does rounded once. -/
theorem quantize_toPrecision (places c : Nat) (e : Int) :
    ∃ q : Nat, quantize places (toPrecision c e).1 (toPrecision c e).2 =
        (if q < 10 ^ precision then .ok q else .error .tooManyDigits) ∧
      (q < 10 ^ precision ↔ inPlaces places c e < limit) ∧
      (q < 10 ^ precision → |(q : ℚ) - inPlaces places c e| ≤ 11 / 20) := by
  rcases Nat.lt_or_ge precision (digitCount c) with hlong | hshort
  · obtain ⟨x, hrounded, hlow, hhigh⟩ := toPrecision_long (e := e) hlong
    rw [hrounded]
    obtain ⟨q, hq, hwhole, hquantize⟩ :=
      quantize_nearest places (roundHalfEven c (10 ^ x)) (e + x)
    refine ⟨q, hquantize, ?_⟩
    have hnear := abs_toPrecision places c e x
    have hpos : (0 : ℚ) < (10 ^ x : Nat) := Nat.cast_pos.2 (by positivity)
    have hleast : (10 : ℚ) ^ (precision - 1) ≤ c / (10 ^ x : Nat) := by
      rw [le_div_iff₀ hpos]
      exact_mod_cast hlow
    have hgreatest : (c : ℚ) / (10 ^ x : Nat) ≤ 10 ^ precision := by
      rw [div_le_iff₀ hpos]
      exact_mod_cast hhigh.le
    -- The last of the 28 digits stands behind the last place, on it, or before it.
    rcases lt_trichotomy (e + x + places) 0 with ht | ht | ht
    · have hsmall : inPlaces places c e ≤ 10 ^ (precision - 1) := by
        rw [inPlaces_scaled x]
        exact small_product hgreatest ht
      have htotal : |(q : ℚ) - inPlaces places c e| ≤ 11 / 20 := by
        have hpower := tenth_power ht
        have htriangle := abs_sub_le (q : ℚ) (inPlaces places (roundHalfEven c (10 ^ x)) (e + x))
          (inPlaces places c e)
        linarith
      obtain ⟨hfits, hbelow⟩ := small_fits hsmall htotal
      exact ⟨iff_of_true hfits hbelow, fun _ => htotal⟩
    · have hunit : (10 : ℚ) ^ (e + x + places) = 1 := by rw [ht, zpow_zero]
      have hexact : inPlaces places c e = c / (10 ^ x : Nat) := by
        rw [inPlaces_scaled x, hunit, mul_one]
      have hround : (q : ℚ) = roundHalfEven c (10 ^ x) := by
        rw [hwhole ht.ge, inPlaces, hunit, mul_one]
      obtain rfl : q = roundHalfEven c (10 ^ x) := Nat.cast_injective hround
      rw [hexact]
      exact ⟨round_fits, fun _ => (abs_roundHalfEven_sub c (by positivity)).trans (by norm_num)⟩
    · have hrounds : (10 : ℚ) ^ (precision - 1) ≤ roundHalfEven c (10 ^ x) := by
        have heven : 10 ^ (precision - 1) % 2 = 0 := by decide
        have hle := (le_roundHalfEven_iff c (show 0 < 10 ^ x by positivity) heven).2
          (Nat.le_add_right_of_le (Nat.mul_le_mul_left 2 hlow))
        exact_mod_cast hle
      have hover : ¬ q < 10 ^ precision := by
        rw [whole_fits (hwhole ht.le), not_lt]
        exact large_product hrounds ht
      have hexceeds : ¬ inPlaces places c e < limit := by
        rw [not_lt, inPlaces_scaled x]
        exact large_product hleast ht
      exact ⟨iff_of_false hover hexceeds, fun h => absurd h hover⟩
  · rw [toPrecision_short hshort]
    obtain ⟨q, hq, hwhole, hquantize⟩ := quantize_nearest places c e
    have hclose : |(q : ℚ) - inPlaces places c e| ≤ 11 / 20 := hq.trans (by norm_num)
    refine ⟨q, hquantize, ?_, fun _ => hclose⟩
    -- All digits are kept, so that only digits behind the last place are rounded.
    rcases Int.lt_or_le (e + places) 0 with hs | hs
    · have hdigits : (c : ℚ) ≤ 10 ^ precision := by
        have hlt := (digitCount_le_iff (show 0 < precision by decide)).1 hshort
        exact_mod_cast hlt.le
      obtain ⟨hfits, hbelow⟩ := small_fits (small_product hdigits hs) hclose
      exact iff_of_true hfits hbelow
    · exact whole_fits (hwhole hs)

theorem isInRange_of_quantize (h : quantize places c e = .ok q) : isInRange c e = true := by
  obtain ⟨p, hp, -, hquantize⟩ := quantize_nearest places c e
  have hfits : p < 10 ^ precision := by
    by_contra hover
    rw [if_neg hover, h] at hquantize
    cases hquantize
  rcases Nat.eq_zero_or_pos c with rfl | hc
  · simp [isInRange]
  have hfirst : (10 : ℚ) ^ (digitCount c - 1 : Nat) ≤ c := by
    have hpositive : 0 < digitCount c := Nat.length_toDigits_pos
    exact_mod_cast pow_le_of_digitCount hc (show digitCount c - 1 < digitCount c by omega)
  have hbelow : (10 : ℚ) ^ ((digitCount c - 1 : Nat) + (e + places)) < 10 ^ (precision : Int) := by
    have hnext : (p : ℚ) + 1 ≤ 10 ^ precision := by exact_mod_cast hfits
    have hmul := mul_le_mul_of_nonneg_right hfirst
      (zpow_nonneg (show (0 : ℚ) ≤ 10 by norm_num) (e + places))
    rw [zpow_add₀ (by norm_num), zpow_natCast, zpow_natCast]
    have hnear := (abs_le.1 hp).1
    rw [inPlaces] at hnear
    linarith
  have hexponent := (zpow_lt_zpow_iff_right₀ (show (1 : ℚ) < 10 by norm_num)).1 hbelow
  have hprecision : precision = 28 := rfl
  have hmagnitude : maxMagnitude = 999999 := rfl
  simp only [isInRange, Bool.or_eq_true, decide_eq_true_eq]
  omega

end NumberPattern

end Phrasebook
