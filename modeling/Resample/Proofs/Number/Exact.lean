import Mathlib.Algebra.Group.Nat.Defs
import Resample.Number.Binary

/-!
# Exact arithmetic

An operation whose exact result is a value of the format gives that value. A magnitude is a value of the
format if few enough significant bits hold it: whole numbers below a bound that follows from the
precision, their halves, and everything that is such a number times a power of two.

## Contents

- §1 magnitudes of a format, §2 rounding, §3 values, §4 operations that are exact, §5 halves of whole numbers
-/

namespace Resample

open Binary (Format)

/-! ## §1 Magnitudes of a format -/

namespace Binary.Format

variable {F : Format}

/-- A magnitude in units whose significant bits the format holds. -/
def Holds (F : Format) (m : Nat) : Prop := ∃ a e, a < 2 ^ F.precision ∧ m = a * 2 ^ e

theorem holds_mul_two_pow {a : Nat} (h : a < 2 ^ F.precision) (e : Nat) : F.Holds (a * 2 ^ e) :=
  ⟨a, e, h, rfl⟩

theorem one_eq (F : Format) : F.one = 2 ^ F.unitBits := Nat.one_shiftLeft _

theorem one_pos (F : Format) : 0 < F.one := by
  rw [one_eq]
  exact Nat.two_pow_pos _

/-! ## §2 Rounding -/

theorem step_eq (F : Format) (n d : Nat) : F.step n d = 2 ^ ((n / d).log2 + 1 - F.precision) :=
  Nat.one_shiftLeft _

theorem step_pos (F : Format) (n d : Nat) : 0 < F.step n d := by
  rw [step_eq]
  exact Nat.two_pow_pos _

/-- The quotient of a multiple is not rounded. -/
theorem nearestEven_mul {d : Nat} (hd : 0 < d) (q : Nat) : nearestEven (q * d) d = q := by
  unfold nearestEven
  rw [Nat.mul_mod_left, Nat.mul_div_cancel _ hd, if_pos (Or.inl (by omega))]

/-- Values of the format lie on its steps. -/
theorem step_dvd_of_holds {m d : Nat} (hd : 0 < d) (hm : F.Holds m) : F.step (m * d) d ∣ m := by
  rw [step_eq, Nat.mul_div_cancel _ hd]
  obtain ⟨a, e, ha, rfl⟩ := hm
  by_cases hzero : a = 0
  · rw [hzero, Nat.zero_mul]
    exact Nat.dvd_zero _
  · have hmag : a * 2 ^ e ≠ 0 := Nat.mul_ne_zero hzero (Nat.ne_of_gt (Nat.two_pow_pos e))
    -- the step is the place of the last significant bit, which is at most that of the power
    have hlog : (a * 2 ^ e).log2 < F.precision + e := by
      rw [Nat.log2_lt hmag, Nat.pow_add]
      exact Nat.mul_lt_mul_of_pos_right ha (Nat.two_pow_pos e)
    exact Nat.dvd_trans (Nat.pow_dvd_pow 2 (by omega)) (Nat.dvd_mul_left _ _)

/-- An exact quotient that the format holds is not rounded. -/
theorem roundRatio_mul {m d : Nat} (hd : 0 < d) (hm : F.Holds m) : F.roundRatio (m * d) d = m := by
  obtain ⟨q, hq⟩ := step_dvd_of_holds hd hm
  unfold roundRatio
  simp only
  generalize F.step (m * d) d = s at hq
  subst hq
  by_cases hs : s = 0
  · simp [hs]
  · rw [show s * q * d = q * (d * s) by rw [Nat.mul_comm d s, ← Nat.mul_assoc, Nat.mul_comm q s],
      nearestEven_mul (Nat.mul_pos hd (Nat.pos_of_ne_zero hs))]

/-- Rounding at most doubles a magnitude of at least one unit, and at most halves it. -/
theorem roundRatio_bounds (hprecision : 0 < F.precision) {n d : Nat} (hd : 0 < d) (hn : d ≤ n) :
    n / d ≤ 2 * F.roundRatio n d ∧ F.roundRatio n d ≤ 2 * (n / d) := by
  have hquotient : n / d ≠ 0 := Nat.ne_of_gt (Nat.div_pos hn hd)
  have hstep : F.step n d ≤ n / d := by
    rw [step_eq]
    exact Nat.le_trans (Nat.pow_le_pow_right (by decide) (by omega)) (Nat.log2_self_le hquotient)
  have hpos := F.step_pos n d
  unfold roundRatio nearestEven
  simp only
  generalize F.step n d = s at hstep hpos
  rw [← Nat.div_div_eq_div_mul]
  -- the multiple of a step that is not above the quotient is less than a step below it, and not zero
  have hbelow : s * (n / d / s) ≤ n / d := Nat.mul_div_le _ _
  have habove : n / d < s * (n / d / s) + s := Nat.lt_mul_div_succ _ hpos
  have hfloor : s ≤ s * (n / d / s) := Nat.le_mul_of_pos_right _ (Nat.div_pos hstep hpos)
  split
  · omega
  · rw [Nat.mul_add]
    omega

end Binary.Format

/-! ## §3 Values -/

namespace Binary

variable {F : Format}

/-- A value from an exact quotient that the format holds. -/
theorem ofRatio_mul {m d : Nat} (negative : Bool) (hd : 0 < d) (hm : F.Holds m) (hlimit : m < F.limit) :
    (ofRatio negative (m * d) d : Binary F) = .finite negative m := by
  unfold ofRatio ofUnits
  rw [Format.roundRatio_mul hd hm, if_pos hlimit]

/-- A value from a whole number of units that the format holds. -/
theorem ofRatio_one {m : Nat} (negative : Bool) (hm : F.Holds m) (hlimit : m < F.limit) :
    (ofRatio negative m 1 : Binary F) = .finite negative m := by
  have h := ofRatio_mul negative Nat.one_pos hm hlimit
  rwa [Nat.mul_one] at h

/-- A natural number of few enough bits is below the limit of the finite values. -/
theorem ofNat_units_lt_limit {n : Nat} (h : n < 2 ^ F.precision) (hrange : F.precision ≤ F.rangeBits) :
    n * F.one < F.limit := by
  unfold Format.limit
  rw [Format.one_eq, Nat.one_shiftLeft, Nat.pow_add]
  exact Nat.mul_lt_mul_of_pos_right
    (Nat.lt_of_lt_of_le h (Nat.pow_le_pow_right (by decide) hrange)) (Nat.two_pow_pos _)

/-- A natural number of few enough bits is a value. -/
theorem ofNat_of_lt {n : Nat} (h : n < 2 ^ F.precision) (hrange : F.precision ≤ F.rangeBits) :
    (ofNat n : Binary F) = .finite false (n * F.one) := by
  unfold ofNat
  refine ofRatio_one false ?_ (ofNat_units_lt_limit h hrange)
  rw [Format.one_eq]
  exact Format.holds_mul_two_pow h _

/-- A whole number of units is rounded to one of at least half the magnitude, unless it is too large. -/
theorem exists_ofRatio_one {m : Nat} (hprecision : 0 < F.precision) (negative : Bool) (hpos : 0 < m)
    (hlimit : 2 * m < F.limit) :
    ∃ u, m ≤ 2 * u ∧ (ofRatio negative m 1 : Binary F) = .finite negative u := by
  have hbounds := Format.roundRatio_bounds hprecision Nat.one_pos hpos
  rw [Nat.div_one] at hbounds
  refine ⟨_, hbounds.1, ?_⟩
  unfold ofRatio ofUnits
  rw [if_pos (Nat.lt_of_le_of_lt hbounds.2 hlimit)]

/-- A natural number has a value of at least half of it, unless it is too large. -/
theorem exists_ofNat {n : Nat} (hprecision : 0 < F.precision) (hpos : 0 < n)
    (hrange : 2 * n < 2 ^ F.rangeBits) :
    ∃ u, n * F.one ≤ 2 * u ∧ (ofNat n : Binary F) = .finite false u := by
  refine exists_ofRatio_one hprecision false (Nat.mul_pos hpos F.one_pos) ?_
  unfold Format.limit
  rw [Format.one_eq, Nat.one_shiftLeft, Nat.pow_add, ← Nat.mul_assoc]
  exact Nat.mul_lt_mul_of_pos_right hrange (Nat.two_pow_pos _)

/-! ## §4 Operations that are exact -/

theorem add_eq (a b : Binary F) : a + b = add a b := rfl

theorem sub_eq (a b : Binary F) : a - b = add a (neg b) := rfl

theorem mul_eq (a b : Binary F) : a * b = mul a b := rfl

theorem div_eq (a b : Binary F) : a / b = div a b := rfl

/-- The sum of two values that are not negative is exact if the format holds it. -/
theorem finite_add_finite {u v : Nat} (hm : F.Holds (u + v)) (hlimit : u + v < F.limit) :
    (.finite false u + .finite false v : Binary F) = .finite false (u + v) := by
  rw [add_eq]
  unfold add signedUnits
  simp only [Bool.false_eq_true, if_false, Bool.and_false]
  split
  · next h =>
    rw [show u + v = 0 by omega]
  · rw [show decide ((u : Int) + v < 0) = false from decide_eq_false (by omega),
      show ((u : Int) + v).natAbs = u + v by omega]
    exact ofRatio_one false hm hlimit

/-- The difference of two values that are not negative is exact if it is not negative and the format holds
it. -/
theorem finite_sub_finite {u v : Nat} (hle : v ≤ u) (hm : F.Holds (u - v)) (hlimit : u - v < F.limit) :
    (.finite false u - .finite false v : Binary F) = .finite false (u - v) := by
  rw [sub_eq]
  unfold add neg signedUnits
  simp only [Bool.not_false, Bool.false_eq_true, if_false, if_true, Bool.false_and]
  split
  · next h => rw [show u - v = 0 by omega]
  · rw [show decide ((u : Int) + -(v : Int) < 0) = false from decide_eq_false (by omega),
      show ((u : Int) + -(v : Int)).natAbs = u - v by omega]
    exact ofRatio_one false hm hlimit

/-- A quotient of a value by itself is one. -/
theorem finite_div_self {u : Nat} (hu : 0 < u) (hprecision : 0 < F.precision)
    (hlimit : F.one < F.limit) : (.finite false u / .finite false u : Binary F) = .finite false F.one := by
  have hone : F.Holds F.one := by
    have h := Format.holds_mul_two_pow (F := F) (Nat.one_lt_two_pow (Nat.ne_of_gt hprecision))
      F.unitBits
    rwa [Nat.one_mul, ← Format.one_eq] at h
  rw [div_eq]
  simp only [div]
  rw [if_neg (Nat.ne_of_gt hu), Nat.mul_comm]
  exact ofRatio_mul false hu hone hlimit

/-- A quotient of natural numbers of few enough bits is exact if it is a natural number. -/
theorem ofNat_mul_div_ofNat {k d : Nat} (hk : 0 < k) (hd : 0 < d) (h : k * d < 2 ^ F.precision)
    (hrange : F.precision ≤ F.rangeBits) : (ofNat (k * d) / ofNat d : Binary F) = ofNat k := by
  have hkBits : k < 2 ^ F.precision := Nat.lt_of_le_of_lt (Nat.le_mul_of_pos_right k hd) h
  have hdBits : d < 2 ^ F.precision := Nat.lt_of_le_of_lt (Nat.le_mul_of_pos_left d hk) h
  have hdUnits : 0 < d * F.one := Nat.mul_pos hd F.one_pos
  have hquotient : k * d * F.one * F.one = k * F.one * (d * F.one) := by ac_rfl
  rw [ofNat_of_lt h hrange, ofNat_of_lt hdBits hrange, ofNat_of_lt hkBits hrange, div_eq]
  simp only [div]
  rw [if_neg (Nat.ne_of_gt hdUnits), hquotient]
  apply ofRatio_mul false hdUnits
  · exact Format.one_eq F ▸ Format.holds_mul_two_pow hkBits F.unitBits
  · exact ofNat_units_lt_limit hkBits hrange

/-! ## §5 Halves of whole numbers -/

/-- Half of one, in units of the 32-bit format. -/
def Format.half : Nat := 2 ^ 148

theorem Format.one_eq_two_mul_half : Format.single.one = 2 * half := by decide +kernel

/-- Helper: the 32-bit format holds halves of whole numbers of few bits. -/
private theorem Format.holds_mul_half {a : Nat} (ha : a < 2 ^ 24) : Format.single.Holds (a * half) :=
  Format.holds_mul_two_pow ha 148

/-- Helper: halves of whole numbers of few bits are below the limit of the finite values. -/
private theorem Format.mul_half_lt_limit {a : Nat} (ha : a < 2 ^ 24) : a * half < Format.single.limit :=
  Nat.lt_of_lt_of_le (Nat.mul_lt_mul_of_pos_right ha (by decide +kernel)) (by decide +kernel)

/-- Halves of whole numbers of few bits are values. -/
theorem ofHalves_of_lt {a : Nat} (ha : a < 2 ^ 24) :
    (ofHalves a : Single) = .finite false (a * Format.half) := by
  have hhalves : a * Format.single.one = a * Format.half * 2 := by
    rw [Format.one_eq_two_mul_half, Nat.mul_comm 2, Nat.mul_assoc]
  unfold ofHalves
  rw [hhalves]
  exact ofRatio_mul false (by decide) (Format.holds_mul_half ha) (Format.mul_half_lt_limit ha)

/-- A whole number of few bits is twice as many halves. -/
theorem ofNat_eq_ofHalves {n : Nat} (hn : n < 2 ^ 23) : (ofNat n : Single) = ofHalves (2 * n) := by
  rw [ofNat_of_lt (Nat.lt_trans hn (by decide)) (by decide), ofHalves_of_lt (by omega),
    Format.one_eq_two_mul_half, Nat.mul_left_comm, Nat.mul_assoc]

/-- A sum of halves is exact as long as it has few bits. -/
theorem ofHalves_add {a b : Nat} (h : a + b < 2 ^ 24) :
    (ofHalves a + ofHalves b : Single) = ofHalves (a + b) := by
  rw [ofHalves_of_lt (by omega), ofHalves_of_lt (by omega), ofHalves_of_lt h, Nat.add_mul]
  apply finite_add_finite
  · exact Nat.add_mul a b _ ▸ Format.holds_mul_half h
  · exact Nat.add_mul a b _ ▸ Format.mul_half_lt_limit h

/-- A difference of halves is exact if it is not negative. -/
theorem ofHalves_sub {a b : Nat} (hle : b ≤ a) (ha : a < 2 ^ 24) :
    (ofHalves a - ofHalves b : Single) = ofHalves (a - b) := by
  have hdiff : a - b < 2 ^ 24 := by omega
  rw [ofHalves_of_lt ha, ofHalves_of_lt (by omega), ofHalves_of_lt hdiff, Nat.sub_mul]
  apply finite_sub_finite (Nat.mul_le_mul_right _ hle)
  · exact Nat.sub_mul a b _ ▸ Format.holds_mul_half hdiff
  · exact Nat.sub_mul a b _ ▸ Format.mul_half_lt_limit hdiff

/-- A product of halves and a whole number is exact as long as it has few bits. -/
theorem ofHalves_mul_ofNat {a n : Nat} (ha : a < 2 ^ 24) (hn : n < 2 ^ 24) (h : a * n < 2 ^ 24) :
    (ofHalves a * ofNat n : Single) = ofHalves (a * n) := by
  have hproduct : a * Format.half * (n * Format.single.one) = a * n * Format.half * Format.single.one := by
    ac_rfl
  rw [ofHalves_of_lt ha, ofNat_of_lt hn (by decide), ofHalves_of_lt h]
  change ofRatio false (a * Format.half * (n * Format.single.one)) Format.single.one = _
  rw [hproduct]
  exact ofRatio_mul false Format.single.one_pos (Format.holds_mul_half h) (Format.mul_half_lt_limit h)

/-- An even number of halves is its own floor. -/
theorem floor_ofHalves {n : Nat} (hn : n < 2 ^ 23) :
    (ofHalves (2 * n) : Single).floor = ofHalves (2 * n) := by
  rw [← ofNat_eq_ofHalves hn, ofNat_of_lt (Nat.lt_trans hn (by decide)) (by decide)]
  simp only [floor, Bool.false_and, Bool.false_eq_true, if_false]
  rw [Nat.mul_div_cancel _ Format.single.one_pos]

/-- An even number of halves is read as half as many whole ones. -/
theorem toInt64_ofHalves {n : Nat} (hn : n < 2 ^ 23) : (ofHalves (2 * n) : Single).toInt64 = n := by
  rw [← ofNat_eq_ofHalves hn, ofNat_of_lt (Nat.lt_trans hn (by decide)) (by decide)]
  simp only [toInt64, signedUnits, Bool.false_eq_true, if_false]
  rw [Nat.mul_div_cancel _ Format.single.one_pos]
  unfold Word.saturate Word.least Word.greatest
  omega

end Binary

end Resample
