import Mathlib
import Phrasebook.Number.Binary

/-!
# Results that are infinite or not a number

A floating-point operation rounds an exact result to 53 bits and packs it. Rounding gives an
infinity from half a unit below `2 ^ 1024` on, and never what is not a number.
-/

namespace Phrasebook.Number

open Float.Model Float.Model.UnpackedFloat

variable {bits : BitVec Format.binary64.numBits} {s : Sign} {m k n : Nat} {e : Int}
  {acc : Accuracy} {em : ExtendedMantissa} {u : UnpackedFloat}

/-! ## Packing -/

theorem isInf_unpack_iff : (UnpackedFloat.unpack .binary64 bits).isInf = true ↔
    unpackExponent bits = -1#11 ∧ unpackMantissa bits = 0#52 := by
  unfold UnpackedFloat.unpack
  dsimp only
  split
  · split <;> simp_all [UnpackedFloat.isInf]
  · split
    · split <;> simp_all [UnpackedFloat.isInf]
    · simp_all [UnpackedFloat.isInf]

theorem isNaN_unpack_iff : (UnpackedFloat.unpack .binary64 bits).isNaN = true ↔
    unpackExponent bits = -1#11 ∧ unpackMantissa bits ≠ 0#52 := by
  unfold UnpackedFloat.unpack
  dsimp only
  split
  · split <;> simp_all [UnpackedFloat.isNaN]
  · split
    · split <;> simp_all [UnpackedFloat.isNaN]
    · simp_all [UnpackedFloat.isNaN]

theorem unpack_finite {hm : 0 < m}
    (h : UnpackedFloat.unpack .binary64 bits = .finite s m e hm) : m < 2 ^ 53 ∧ e ≤ 971 := by
  have hmantissa : (unpackMantissa bits).toNat < 2 ^ 52 := (unpackMantissa bits).isLt
  unfold UnpackedFloat.unpack at h
  dsimp only at h
  split at h
  · split at h <;> cases h
  · rename_i hones
    split at h
    · rename_i hzero
      split at h
      · cases h
      · rw [hzero] at h
        injection h with _ hm he
        change ((0 : Nat) : Int) - 1075 + 1 = e at he
        omega
    · have hfield : (unpackExponent bits).toNat ≤ 2046 := by
        have hlt : (unpackExponent bits).toNat < 2 ^ 11 := (unpackExponent bits).isLt
        have hne : (unpackExponent bits).toNat ≠ 2047 := fun heq => hones (BitVec.eq_of_toNat_eq heq)
        omega
      injection h with _ hm he
      have hlt : (1#1 ++ unpackMantissa bits).toNat < 2 ^ 53 := (1#1 ++ unpackMantissa bits).isLt
      change ((unpackExponent bits).toNat : Int) - 1075 = e at he
      omega

/-- What is packed as an infinity: the largest exponent of a finite number is 971. -/
def Overflows : UnpackedFloat → Prop
  | .infinity _ => True
  | .finite _ _ e _ => 972 ≤ e
  | _ => False

theorem overflows_finite {hm : 0 < m} :
    Overflows (.finite s m e hm) ↔ 2 ^ Format.binary64.exponentBits ≤
      (e + Format.binary64.exponentBias + Format.binary64.mantissaBitsWithoutImplicit).toNat + 1 := by
  change 972 ≤ e ↔ 2 ^ 11 ≤ (e + 1023 + 52).toNat + 1
  omega

theorem pack_overflowing (h : Overflows u) :
    ∃ s, UnpackedFloat.pack .binary64 u = packedInfinity .binary64 s := by
  cases u with
  | notANumber => exact h.elim
  | infinity s => exact ⟨s, rfl⟩
  | zero s => exact h.elim
  | finite s m e hm => exact ⟨s, by rw [UnpackedFloat.pack, if_pos (overflows_finite.mp h)]⟩

theorem exponent_ne (h : ¬ 972 ≤ e) :
    BitVec.ofNat 11 (e + Format.binary64.exponentBias + 52).toNat ≠ -1#11 := by
  intro heq
  have hfield : (e + 1023 + 52).toNat % 2 ^ 11 = 2047 := congrArg BitVec.toNat heq
  omega

theorem overflows_of_exponent
    (h : unpackExponent (UnpackedFloat.pack .binary64 u) = -1#11) :
    Overflows u ∨ u = .notANumber := by
  cases u with
  | notANumber => exact .inr rfl
  | infinity s => exact .inl trivial
  | zero s =>
    rw [UnpackedFloat.pack, packedZero, unpackExponent_packComponents] at h
    exact absurd h (by decide)
  | finite s m e hm =>
    by_cases he : Overflows (.finite s m e hm)
    · exact .inl he
    · rw [UnpackedFloat.pack, if_neg (mt overflows_finite.mpr he)] at h
      dsimp only at h
      split at h <;> rw [unpackExponent_packComponents] at h
      · exact absurd h (exponent_ne he)
      · exact absurd h (by decide)

theorem isInf_pack_iff : (Float.Model.pack u).isInf = true ↔ Overflows u := by
  change (UnpackedFloat.unpack .binary64 (UnpackedFloat.pack .binary64 u)).isInf = true ↔ _
  rw [isInf_unpack_iff]
  constructor
  · rintro ⟨hexponent, hmantissa⟩
    refine (overflows_of_exponent hexponent).resolve_right ?_
    rintro rfl
    rw [UnpackedFloat.pack, packedNaN, unpackMantissa_packComponents] at hmantissa
    exact absurd hmantissa (by decide)
  · intro h
    obtain ⟨s, hs⟩ := pack_overflowing h
    rw [hs, packedInfinity, unpackExponent_packComponents, unpackMantissa_packComponents]
    exact ⟨rfl, rfl⟩

theorem isNaN_pack_iff : (Float.Model.pack u).isNaN = true ↔ u = .notANumber := by
  change (UnpackedFloat.unpack .binary64 (UnpackedFloat.pack .binary64 u)).isNaN = true ↔ _
  rw [isNaN_unpack_iff]
  constructor
  · rintro ⟨hexponent, hmantissa⟩
    refine (overflows_of_exponent hexponent).resolve_left fun h => hmantissa ?_
    obtain ⟨s, hs⟩ := pack_overflowing h
    rw [hs, packedInfinity, unpackMantissa_packComponents]
    rfl
  · rintro rfl
    rw [UnpackedFloat.pack, packedNaN, unpackExponent_packComponents, unpackMantissa_packComponents]
    exact ⟨rfl, by decide⟩

/-! ## Shifting -/

theorem shift_mantissa (em : ExtendedMantissa) (k : Nat) :
    (em >>> k).mantissa = em.mantissa / 2 ^ k := by
  induction k with
  | zero => exact (Nat.div_one _).symm
  | succ k ih =>
    change (em >>> k).mantissa / 2 = _
    rw [ih, Nat.div_div_eq_div_mul, Nat.pow_succ]

theorem shift_succ_roundBit (em : ExtendedMantissa) (k : Nat) :
    (em >>> (k + 1)).roundBit = (em.mantissa / 2 ^ k % 2 != 0) := by
  rw [← shift_mantissa]
  rfl

theorem roundToNearestEven_bounds (m : Nat) (acc : Accuracy) :
    m ≤ acc.roundToNearestEven m ∧ acc.roundToNearestEven m ≤ m + 1 := by
  cases acc with
  | exact => exact ⟨Nat.le_refl m, Nat.le_succ m⟩
  | inexact o =>
    cases o with
    | lt => exact ⟨Nat.le_refl m, Nat.le_succ m⟩
    | eq => exact ⟨Nat.le_add_right m _, Nat.add_le_add_left (by omega) m⟩
    | gt => exact ⟨Nat.le_succ m, Nat.le_refl _⟩

theorem le_roundedMantissa (em : ExtendedMantissa) : em.mantissa ≤ em.roundedMantissa :=
  (roundToNearestEven_bounds em.mantissa em.accuracy).1

theorem roundedMantissa_le (em : ExtendedMantissa) : em.roundedMantissa ≤ em.mantissa + 1 :=
  (roundToNearestEven_bounds em.mantissa em.accuracy).2

/-- An odd mantissa is rounded up exactly if half a unit or more is cut off. -/
theorem roundedMantissa_odd (h : em.mantissa % 2 = 1) :
    em.roundedMantissa = em.mantissa + 1 ↔ em.roundBit = true := by
  obtain ⟨m, r, s⟩ := em
  cases r <;> cases s <;>
    simp [ExtendedMantissa.roundedMantissa, ExtendedMantissa.accuracy, Accuracy.roundToNearestEven]
  exact h

theorem ofMantissaAndAccuracy_mantissa :
    (ExtendedMantissa.ofMantissaAndAccuracy m acc).mantissa = m := by
  cases acc with
  | exact => rfl
  | inexact o => cases o <;> rfl

def places (m : Nat) (e : Int) : Nat :=
  (Format.binary64.targetExponent (totalExponent m e) - e).toNat

/-- What is rounded: the mantissa that is left, and how the rest compares. -/
def shifted (m : Nat) (e : Int) (acc : Accuracy) : ExtendedMantissa :=
  ExtendedMantissa.ofMantissaAndAccuracy m acc >>> places m e

theorem places_eq : places m e = (max ((m.log2 : Int) - 52) (-1074 - e)).toNat := by
  change (max ((m.log2 : Int) + 1 + e - 53) (-1074) - e).toNat = _
  omega

theorem shifted_mantissa : (shifted m e acc).mantissa = m / 2 ^ places m e := by
  rw [shifted, shift_mantissa, ofMantissaAndAccuracy_mantissa]

/-! ## Rounding -/

/-- A mantissa that is rounded up to 54 bits is shifted once more. -/
theorem roundWithAccuracy_eq (s : Sign) (m : Nat) (e : Int) (acc : Accuracy) :
    let r := (shifted m e acc).roundedMantissa
    let e₁ := e + places m e
    roundWithAccuracy .binary64 s m e acc =
      if h : r / 2 ^ places r e₁ = 0 then .zero s
      else .finite s (r / 2 ^ places r e₁) (e₁ + places r e₁) (Nat.pos_of_ne_zero h) := by
  intro r e₁
  have hfinal : (shifted r e₁ .exact).mantissa = r / 2 ^ places r e₁ := shifted_mantissa
  change (if h : (shifted r e₁ .exact).mantissa = 0 then UnpackedFloat.zero s
    else .finite s (shifted r e₁ .exact).mantissa (e₁ + places r e₁) (Nat.pos_of_ne_zero h)) = _
  simp only [hfinal]

theorem round_ne_notANumber : roundWithAccuracy .binary64 s m e acc ≠ .notANumber := by
  rw [roundWithAccuracy_eq]
  split <;> simp

theorem overflows_round :
    Overflows (roundWithAccuracy .binary64 s m e acc) ↔
      (shifted m e acc).roundedMantissa ≠ 0 ∧
        972 ≤ e + places m e + places (shifted m e acc).roundedMantissa (e + places m e) := by
  rw [roundWithAccuracy_eq]
  have hlow : -1074 ≤ e + places m e := by
    rw [places_eq]
    omega
  generalize (shifted m e acc).roundedMantissa = r
  generalize e + (places m e : Int) = e₁ at hlow ⊢
  have hplaces : places r e₁ ≤ r.log2 := by
    rw [places_eq]
    omega
  by_cases hr : r = 0
  · simp [hr, Overflows]
  · have hle : 2 ^ places r e₁ ≤ r :=
      Nat.le_trans (Nat.pow_le_pow_right (by decide) hplaces) (Nat.log2_self_le hr)
    have hfinal : r / 2 ^ places r e₁ ≠ 0 :=
      Nat.ne_of_gt (Nat.div_pos hle (Nat.two_pow_pos _))
    rw [dif_neg hfinal]
    exact ⟨fun h => ⟨hr, h⟩, fun h => h.2⟩

theorem lt_two_pow_log2 (h : m.log2 ≤ k) : m < 2 ^ (k + 1) :=
  Nat.lt_of_lt_of_le Nat.lt_log2_self (Nat.pow_le_pow_right (by decide) (by omega))

theorem two_pow_log2_le (hpos : 0 < m.log2) (h : k ≤ m.log2) : 2 ^ k ≤ m := by
  have hm : m ≠ 0 := by
    rintro rfl
    exact absurd hpos (by decide)
  exact Nat.le_trans (Nat.pow_le_pow_right (by decide) h) (Nat.log2_self_le hm)

/-- The three cases are told apart by the power of two above the exact result. The power that is
just too large leaves the decision to the rounded mantissa. -/
theorem not_overflows_round (h : m.log2 + 1 + e ≤ 1023) (he : e ≤ 970) :
    ¬ Overflows (roundWithAccuracy .binary64 s m e acc) := by
  have hplaces := places_eq (m := m) (e := e)
  have hk : m.log2 ≤ 52 + places m e := by omega
  have hm : m / 2 ^ places m e < 2 ^ 53 := by
    rw [Nat.div_lt_iff_lt_mul (Nat.two_pow_pos _), ← Nat.pow_add]
    exact Nat.lt_of_lt_of_eq (lt_two_pow_log2 hk) (by congr 1; omega)
  have hr : (shifted m e acc).roundedMantissa < 2 ^ (53 + 1) := by
    have := roundedMantissa_le (shifted m e acc)
    rw [shifted_mantissa] at this
    omega
  rw [overflows_round]
  generalize (shifted m e acc).roundedMantissa = r at hr ⊢
  rintro ⟨hne, hlarge⟩
  have hlog := (Nat.log2_lt hne).mpr hr
  have hsecond := places_eq (m := r) (e := e + places m e)
  omega

theorem overflows_round_of_large (h : 1025 ≤ m.log2 + 1 + e) (he : e ≤ 970) :
    Overflows (roundWithAccuracy .binary64 s m e acc) := by
  have hplaces := places_eq (m := m) (e := e)
  have hpos : 0 < m / 2 ^ places m e :=
    Nat.div_pos (two_pow_log2_le (by omega) (by omega)) (Nat.two_pow_pos _)
  have hr := le_roundedMantissa (shifted m e acc)
  rw [shifted_mantissa] at hr
  rw [overflows_round]
  omega

theorem overflows_round_boundary (h : m.log2 + 1 + e = 1024) (he : e ≤ 970) :
    Overflows (roundWithAccuracy .binary64 s m e acc) ↔ (2 ^ 54 - 1) * 2 ^ (970 - e).toNat ≤ m := by
  obtain ⟨j, hj⟩ : ∃ j : Nat, e = 970 - j := ⟨(970 - e).toNat, by omega⟩
  have hplaces : places m e = j + 1 := by
    rw [places_eq]
    omega
  have hlog : m.log2 = 53 + j := by omega
  have hlow : 2 ^ 53 ≤ m / 2 ^ j := by
    rw [Nat.le_div_iff_mul_le (Nat.two_pow_pos _), ← Nat.pow_add]
    exact two_pow_log2_le (by omega) (by omega)
  have hhigh : m / 2 ^ j < 2 ^ 54 := by
    rw [Nat.div_lt_iff_lt_mul (Nat.two_pow_pos _), ← Nat.pow_add]
    exact Nat.lt_of_lt_of_eq (lt_two_pow_log2 (Nat.le_of_eq hlog)) (by congr 1; omega)
  have hmantissa : (shifted m e acc).mantissa = m / 2 ^ j / 2 := by
    rw [shifted_mantissa, hplaces, Nat.pow_succ, Nat.div_div_eq_div_mul]
  have hround : (shifted m e acc).roundBit = (m / 2 ^ j % 2 != 0) := by
    rw [shifted, hplaces, shift_succ_roundBit, ofMantissaAndAccuracy_mantissa]
  have hge := le_roundedMantissa (shifted m e acc)
  have hle := roundedMantissa_le (shifted m e acc)
  have hodd := @roundedMantissa_odd (shifted m e acc)
  rw [hround, bne_iff_ne] at hodd
  rw [hmantissa] at hge hle hodd
  have hexponent : (970 - e).toNat = j := by omega
  rw [overflows_round, hexponent, ← Nat.le_div_iff_mul_le (Nat.two_pow_pos _), hplaces]
  generalize (shifted m e acc).roundedMantissa = r at *
  have hr : r ≠ 0 := by omega
  have h53 : 53 ≤ r.log2 ↔ 2 ^ 53 ≤ r := Nat.le_log2 hr
  rw [places_eq]
  omega

/-- What is rounded is infinite from half a unit below `2 ^ 1024` on. -/
theorem overflows_round_iff (he : e ≤ 970) :
    Overflows (roundWithAccuracy .binary64 s m e acc) ↔ (2 ^ 54 - 1) * 2 ^ (970 - e).toNat ≤ m := by
  obtain ⟨j, hj⟩ : ∃ j : Nat, e = 970 - j := ⟨(970 - e).toNat, by omega⟩
  have hexponent : (970 - e).toNat = j := by omega
  have hpow : 0 < 2 ^ j := Nat.two_pow_pos j
  rcases Int.lt_trichotomy (m.log2 + 1 + e) 1024 with h | h | h
  · refine iff_of_false (not_overflows_round (by omega) he) ?_
    have hm : m < 2 ^ (52 + j + 1) := lt_two_pow_log2 (by omega)
    rw [Nat.pow_succ, Nat.pow_add] at hm
    rw [hexponent]
    omega
  · exact overflows_round_boundary h he
  · refine iff_of_true (overflows_round_of_large (by omega) he) ?_
    have hle : 2 ^ (54 + j) ≤ m := two_pow_log2_le (by omega) (by omega)
    rw [Nat.pow_add] at hle
    rw [hexponent]
    omega

def overflowBound : Nat := (2 ^ 54 - 1) * 2 ^ 970

theorem lt_scaled (hn : n < 2 ^ 64) (hk : 64 ≤ k) : n < (2 ^ 54 - 1) * 2 ^ k :=
  calc n < 2 ^ 64 := hn
    _ ≤ 2 ^ k := Nat.pow_le_pow_right (by decide) hk
    _ ≤ (2 ^ 54 - 1) * 2 ^ k := Nat.le_mul_of_pos_left _ (by decide)

theorem lt_overflowBound (hn : n < 2 ^ 64) : n < overflowBound := by
  have hexponent : 64 ≤ 970 := by decide
  exact lt_scaled hn hexponent

theorem scaled_add (j k : Nat) : (2 ^ 54 - 1) * 2 ^ (j + k) = (2 ^ 54 - 1) * 2 ^ j * 2 ^ k := by
  rw [Nat.pow_add, Nat.mul_assoc]

theorem overflowBound_scaled (k : Nat) :
    (2 ^ 54 - 1) * 2 ^ (970 - (-k : Int)).toNat = overflowBound * 2 ^ k := by
  have hexponent : (970 - (-k : Int)).toNat = 970 + k := by omega
  rw [hexponent]
  exact scaled_add 970 k

end Phrasebook.Number
