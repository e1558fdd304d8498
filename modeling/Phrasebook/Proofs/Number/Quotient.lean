import Phrasebook.Duration
import Phrasebook.Proofs.Number.Rounding

/-!
# Quotients by powers of ten

A number over a finite number is not a number only if it is none itself. An integer over a power of
ten is finite exactly if it is less than half a unit below `2 ^ 1024` times that power.
-/

namespace Phrasebook

namespace Number

open Float.Model Float.Model.UnpackedFloat

variable {x y : Float} {s t : Sign} {m k n p : Nat} {d e : Int} {u : UnpackedFloat}

/-! ## Division -/

def quotientExponent (m : Nat) (d : Int) (k : Nat) (e : Int) : Int :=
  min (d - e) (Format.binary64.targetExponent (totalExponent m d - totalExponent k e))

theorem quotientExponent_eq : quotientExponent m d k e =
    min (d - e) (max (m.log2 + d - k.log2 - e - 53) (-1074)) := by
  change min (d - e) (max ((m.log2 : Int) + 1 + d - (k.log2 + 1 + e) - 53) (-1074)) = _
  omega

/-- A quotient of finite numbers is a quotient of integers that is rounded. -/
theorem div_finite (hm : 0 < m) (hk : 0 < k) :
    ∃ acc, UnpackedFloat.div .binary64 (.finite s m d hm) (.finite t k e hk) =
      roundWithAccuracy .binary64 (s / t)
        (m * 2 ^ (d - e - quotientExponent m d k e).toNat / k) (quotientExponent m d k e) acc := by
  refine ⟨accuracyOfFraction (m <<< (d - e - quotientExponent m d k e).toNat % k) k, ?_⟩
  rw [← Nat.shiftLeft_eq]
  rfl

theorem overflows_div_finite {hm : 0 < m} {hk : 0 < k} (h : quotientExponent m d k e ≤ 970) :
    Overflows (UnpackedFloat.div .binary64 (.finite s m d hm) (.finite t k e hk)) ↔
      (2 ^ 54 - 1) * 2 ^ (970 - quotientExponent m d k e).toNat * k ≤
        m * 2 ^ (d - e - quotientExponent m d k e).toNat := by
  obtain ⟨acc, hdiv⟩ := div_finite hm hk
  rw [hdiv, overflows_round_iff h, Nat.le_div_iff_mul_le hk]

theorem div_finite_ne_notANumber {hm : 0 < m} {hk : 0 < k} :
    UnpackedFloat.div .binary64 (.finite s m d hm) (.finite t k e hk) ≠ .notANumber := by
  obtain ⟨acc, hdiv⟩ := div_finite hm hk
  rw [hdiv]
  exact round_ne_notANumber

theorem isNaN_div {hk : 0 < k} (hy : y.toModel.unpack = .finite t k e hk) :
    (x / y).isNaN = x.isNaN := by
  rw [Bool.eq_iff_iff]
  change (Float.Model.pack (.div .binary64 x.toModel.unpack y.toModel.unpack)).isNaN = true ↔
    x.toModel.unpack.isNaN = true
  rw [isNaN_pack_iff, hy]
  cases x.toModel.unpack with
  | notANumber => exact iff_of_true rfl rfl
  | infinity s => exact iff_of_false (by simp [UnpackedFloat.div]) (by simp [UnpackedFloat.isNaN])
  | zero s => exact iff_of_false (by simp [UnpackedFloat.div]) (by simp [UnpackedFloat.isNaN])
  | finite s m d hm => exact iff_of_false div_finite_ne_notANumber (by simp [UnpackedFloat.isNaN])

theorem isNaN_neg : (-x).isNaN = x.isNaN := by
  rw [Bool.eq_iff_iff]
  change (Float.Model.pack x.toModel.unpack.neg).isNaN = true ↔ x.toModel.unpack.isNaN = true
  rw [isNaN_pack_iff]
  cases x.toModel.unpack <;> simp [UnpackedFloat.neg, UnpackedFloat.isNaN]

def isLarge : UnpackedFloat → Bool
  | .finite .positive m e _ => 2 ^ 52 ≤ m && -52 ≤ e
  | _ => false

theorem exists_of_isLarge (h : isLarge u = true) :
    ∃ m e hm, u = .finite .positive m e hm ∧ 2 ^ 52 ≤ m ∧ -52 ≤ e := by
  unfold isLarge at h
  split at h
  · rename_i m e hm
    exact ⟨m, e, hm, rfl, by simpa using h⟩
  · cases h

theorem not_overflows_div_large {b : BitVec Format.binary64.numBits} {hk : 0 < k}
    (h : (UnpackedFloat.unpack .binary64 b).isInf = false) (hlarge : 2 ^ 52 ≤ k) (he : -52 ≤ e) :
    ¬ Overflows (.div .binary64 (.unpack .binary64 b) (.finite t k e hk)) := by
  cases hu : UnpackedFloat.unpack .binary64 b with
  | notANumber => exact id
  | infinity s => simp [hu, UnpackedFloat.isInf] at h
  | zero s => exact id
  | finite s m d hm =>
    obtain ⟨hlt, hle⟩ := unpack_finite hu
    have hlogm : m.log2 < 53 := (Nat.log2_lt (Nat.ne_of_gt hm)).mpr hlt
    have hlogk : 52 ≤ k.log2 := (Nat.le_log2 (Nat.ne_of_gt hk)).mpr hlarge
    have hq := quotientExponent_eq (m := m) (d := d) (k := k) (e := e)
    rw [overflows_div_finite (by omega)]
    generalize quotientExponent m d k e = q at hq ⊢
    have hshift : (d - e - q).toNat ≤ (970 - q).toNat + 53 := by omega
    have hpow := Nat.pow_le_pow_right (n := 2) (by decide) hshift
    have hpos : 0 < 2 ^ (970 - q).toNat := Nat.two_pow_pos _
    rw [Nat.pow_add] at hpow
    rw [Nat.not_le]
    generalize (2 : Nat) ^ (d - e - q).toNat = a at hpow ⊢
    generalize (2 : Nat) ^ (970 - q).toNat = c at hpos hpow ⊢
    calc m * a ≤ (2 ^ 53 - 1) * (c * 2 ^ 53) := Nat.mul_le_mul (by omega) hpow
      _ < (2 ^ 54 - 1) * c * 2 ^ 52 := by omega
      _ ≤ (2 ^ 54 - 1) * c * k := Nat.mul_le_mul_left _ hlarge

/-! ## Integers -/

theorem ofNat_eq (hn : 0 < n) : ∃ k : Nat, UnpackedFloat.ofNat .binary64 n =
    roundWithAccuracy .binary64 .positive (n * 2 ^ k) (0 - k) .exact := by
  have hcompare : compare (n : Int) 0 = .gt := Int.compare_eq_gt.mpr (by omega)
  unfold UnpackedFloat.ofNat UnpackedFloat.ofInt UnpackedFloat.normalize
  rw [hcompare]
  refine ⟨(0 - Format.binary64.targetExponent (totalExponent n 0)).toNat, ?_⟩
  rw [← Nat.shiftLeft_eq]
  rfl

theorem not_overflows_ofNat (hn : n < 2 ^ 64) :
    ¬ Overflows (.ofNat .binary64 n) ∧ UnpackedFloat.ofNat .binary64 n ≠ .notANumber := by
  rcases Nat.eq_zero_or_pos n with rfl | hpos
  · exact ⟨id, UnpackedFloat.noConfusion⟩
  · obtain ⟨k, hk⟩ := ofNat_eq hpos
    rw [hk, overflows_round_iff (by omega), Int.zero_sub, overflowBound_scaled,
      Nat.mul_le_mul_right_iff (Nat.two_pow_pos k)]
    exact ⟨Nat.not_le.mpr (lt_overflowBound hn), round_ne_notANumber⟩

theorem toFloat_div_large (w : UInt64) (hy : isLarge y.toModel.unpack = true) :
    (w.toFloat / y).isInf = false ∧ (w.toFloat / y).isNaN = false := by
  obtain ⟨k, e, hk, hunpack, hlarge, he⟩ := exists_of_isLarge hy
  obtain ⟨hfinite, hnumber⟩ := not_overflows_ofNat (n := w.toNat) w.toBitVec.isLt
  have hinf : w.toFloat.toModel.unpack.isInf = false :=
    Bool.eq_false_iff.mpr (mt isInf_pack_iff.mp hfinite)
  have hnan : w.toFloat.isNaN = false := Bool.eq_false_iff.mpr (mt isNaN_pack_iff.mp hnumber)
  refine ⟨Bool.eq_false_iff.mpr ?_, (isNaN_div hunpack).trans hnan⟩
  change ¬ (Float.Model.pack (.div .binary64 w.toFloat.toModel.unpack
    y.toModel.unpack)).isInf = true
  rw [isInf_pack_iff, hunpack]
  exact not_overflows_div_large hinf hlarge he

theorem powers_isLarge : ∀ x ∈ Float.exactlyRepresentablePowersOfTen,
    isLarge x.toModel.unpack = true := by
  decide +kernel

theorem ofNat_powers_isLarge :
    ∀ p < 23, isLarge (Float.ofNat (Nat.pow 10 p)).toModel.unpack = true := by
  decide +kernel

theorem exponent_in_range (hp : p ≤ 22) :
    ¬ (-p : Int) > 2 ^ Format.binary64.exponentBits ∧
      ¬ (-p : Int) < -(2 ^ Format.binary64.exponentBits + n.log2) := by
  have hbits : (2 : Int) ^ Format.binary64.exponentBits = 2048 := rfl
  omega

theorem scientific_whole (hn : 0 < n) :
    UnpackedFloat.ofScientific .binary64 n (-(0 : Nat)) =
      roundWithAccuracy .binary64 .positive (n * 2 ^ 53) (-(53 : Nat)) .exact := by
  obtain ⟨hhigh, hlow⟩ := exponent_in_range (n := n) (p := 0) (by decide)
  unfold UnpackedFloat.ofScientific
  rw [dif_neg (Nat.ne_of_gt hn), if_neg hhigh, if_neg hlow, if_pos (by omega),
    ← Nat.shiftLeft_eq, ← Nat.mul_one (n <<< 53)]
  rfl

theorem scientific_quotient (hn : 0 < n) (hpos : 0 < p) (hp : p ≤ 22) :
    UnpackedFloat.ofScientific .binary64 n (-p) =
      .div .binary64 (.finite .positive n 0 hn)
        (.finite .positive (10 ^ p) 0 (Nat.pow_pos (by decide))) := by
  obtain ⟨hhigh, hlow⟩ := exponent_in_range (n := n) hp
  have hpower : 10 ^ (-(-p : Int)).toNat = 10 ^ p := by
    congr 1
    omega
  unfold UnpackedFloat.ofScientific
  rw [dif_neg (Nat.ne_of_gt hn), if_neg hhigh, if_neg hlow, if_neg (by omega)]
  simp only [hpower]

theorem overflows_scientific (hn : 0 < n) (hp : p ≤ 22) :
    (Overflows (.ofScientific .binary64 n (-p)) ↔ overflowBound * 10 ^ p ≤ n) ∧
      UnpackedFloat.ofScientific .binary64 n (-p) ≠ .notANumber := by
  rcases Nat.eq_zero_or_pos p with rfl | hpos
  · rw [scientific_whole hn, overflows_round_iff (by omega), overflowBound_scaled,
      Nat.mul_le_mul_right_iff (Nat.two_pow_pos 53), Nat.pow_zero, Nat.mul_one]
    exact ⟨Iff.rfl, round_ne_notANumber⟩
  · have hq := quotientExponent_eq (m := n) (d := 0) (k := 10 ^ p) (e := 0)
    obtain ⟨j, hj⟩ : ∃ j : Nat, quotientExponent n 0 (10 ^ p) 0 = -j :=
      ⟨(-quotientExponent n 0 (10 ^ p) 0).toNat, by omega⟩
    have hshift : ((0 : Int) - 0 - -j).toNat = j := by omega
    rw [scientific_quotient hn hpos hp, overflows_div_finite (by omega), hj, overflowBound_scaled,
      hshift, Nat.mul_right_comm, Nat.mul_le_mul_right_iff (Nat.two_pow_pos j)]
    exact ⟨Iff.rfl, div_finite_ne_notANumber⟩

theorem ofScientific_isInf_iff (n : Nat) (hp : p ≤ 22) :
    ((Float.ofScientific n true p).isInf = true ↔ overflowBound * 10 ^ p ≤ n) ∧
      (Float.ofScientific n true p).isNaN = false := by
  unfold Float.ofScientific
  split
  · rename_i h
    obtain ⟨hinf, hnan⟩ :=
      toFloat_div_large n.toUInt64 (powers_isLarge _ (Array.getElem_mem (Nat.lt_succ_of_le h.2)))
    have hsmall : n < overflowBound * 10 ^ p :=
      Nat.lt_of_lt_of_le (lt_overflowBound (Nat.lt_trans h.1 (by decide)))
        (Nat.le_mul_of_pos_right _ (Nat.pow_pos (by decide)))
    exact ⟨iff_of_false (Bool.eq_false_iff.mp hinf) (Nat.not_le.mpr hsmall), hnan⟩
  · rename_i h
    have hpos : 0 < n := by
      refine Nat.pos_of_ne_zero ?_
      rintro rfl
      exact h ⟨by decide, hp⟩
    have hneg : Int.negOfNat p = -(p : Int) := Int.negOfNat_eq
    obtain ⟨hinf, hnan⟩ := overflows_scientific hpos hp
    rw [← hneg] at hinf hnan
    exact ⟨isInf_pack_iff.trans hinf, Bool.eq_false_iff.mpr (mt isNaN_pack_iff.mp hnan)⟩

/-! ## Comparison with zero -/

theorem lt_iff : x < y ↔ x.toModel.unpack.lt y.toModel.unpack = true := decide_eq_true_iff

theorem le_iff : x ≤ y ↔ x.toModel.unpack.le y.toModel.unpack = true := decide_eq_true_iff

theorem unpack_zero : (0 : Float).toModel.unpack = .zero .positive := by rfl

theorem pos_iff : 0 < x ↔ ¬ x ≤ 0 ∧ x.isNaN = false := by
  change 0 < x ↔ ¬ x ≤ 0 ∧ x.toModel.unpack.isNaN = false
  rw [lt_iff, le_iff, unpack_zero]
  unfold UnpackedFloat.lt UnpackedFloat.le
  cases x.toModel.unpack with
  | notANumber => simp [UnpackedFloat.compare, UnpackedFloat.isNaN]
  | infinity s => cases s <;> simp [UnpackedFloat.compare, UnpackedFloat.isNaN]
  | zero s => simp [UnpackedFloat.compare, UnpackedFloat.isNaN]
  | finite s m e hm => cases s <;> simp [UnpackedFloat.compare, UnpackedFloat.isNaN]

end Number

theorem Timeout.general?_isSome {t : Timeout} (h : t.duration.elapses = true) (count : Nat) :
    (t.duration.general? count).isSome = true := by
  obtain ⟨d, hlasting⟩ := t
  cases d with
  | fractional x => rfl
  | whole n =>
    have hpositive : 0 < n := by simpa [Duration.isTooShort] using hlasting
    have hwait : n ≤ Duration.longestWait := by simpa [Duration.elapses] using h
    have hsmall : n.natAbs < 2 ^ 64 := by
      rw [Duration.longestWait] at hwait
      omega
    have hfinite : (Float.ofScientific n.natAbs true 0).isInf = false := by
      rw [Bool.eq_false_iff, Ne, (Number.ofScientific_isInf_iff _ (Nat.zero_le _)).1, Nat.pow_zero,
        Nat.mul_one, Nat.not_le]
      exact Number.lt_overflowBound hsmall
    simp [Duration.general?, Duration.toFloat?, hfinite]

end Phrasebook
