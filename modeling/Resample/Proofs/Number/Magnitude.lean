import Resample.Proofs.Number.Exact

/-!
# Magnitudes

A rounding at most doubles a magnitude of at least one unit. So what is computed from numbers below some bounds
is a number below a bound that follows from them, and not infinite, as long as that bound is within the format:
twice the sum of the bounds for a sum, twice their product for a product, and twice their quotient for a
quotient.

## Contents

- §1 numbers below a bound, §2 rounding, §3 operations, §4 values between two others
-/

namespace Resample.Binary

variable {F : Format}

/-! ## §1 Numbers below a bound -/

/-- Whether a value is a number of a magnitude below a bound. -/
def Below (bound : Nat) : Binary F → Prop
  | .finite _ units => units < bound * F.one
  | _ => False

instance (bound : Nat) (u : Binary F) : Decidable (u.Below bound) := by
  unfold Below
  split <;> infer_instance

theorem natAbs_signedUnits (negative : Bool) (units : Nat) : (signedUnits negative units).natAbs = units := by
  cases negative with
  | false => rfl
  | true => exact Int.natAbs_neg units

variable {a b : Binary F} {m n k : Nat}

/-- A number below a bound has a sign and units. -/
theorem Below.exists_finite (h : a.Below m) :
    ∃ negative units, a = .finite negative units ∧ units < m * F.one := by
  cases a with
  | nan => exact h.elim
  | infinite => exact h.elim
  | finite negative units => exact ⟨negative, units, rfl, h⟩

theorem Below.mono (h : a.Below m) (hle : m ≤ n) : a.Below n := by
  obtain ⟨negative, units, rfl, hunits⟩ := h.exists_finite
  exact Nat.lt_of_lt_of_le hunits (Nat.mul_le_mul_right _ hle)

/-! ## §2 Rounding -/

/-- A quotient of less than a unit is rounded to a unit at most. -/
theorem Format.roundRatio_le_one (hprecision : 0 < F.precision) {n d : Nat} (hn : n < d) :
    F.roundRatio n d ≤ 1 := by
  have hstep : F.step n d = 1 := by
    rw [step_eq, Nat.div_eq_of_lt hn, Nat.log2_zero, Nat.sub_eq_zero_of_le (by omega), Nat.pow_zero]
  unfold roundRatio nearestEven
  simp only [hstep, Nat.mul_one, Nat.one_mul, Nat.div_eq_of_lt hn]
  split <;> omega

/-- A magnitude below a bound is a number below twice the bound when it is rounded. -/
theorem below_ofRatio (hprecision : 0 < F.precision) (negative : Bool) {d : Nat} (hd : 0 < d)
    (h : n / d < m * F.one) (hrange : 2 * m ≤ 2 ^ F.rangeBits) :
    (ofRatio negative n d : Binary F).Below (2 * m) := by
  have hround : F.roundRatio n d < 2 * m * F.one := by
    rw [Nat.mul_assoc]
    by_cases hn : n < d
    · have hone := Format.roundRatio_le_one hprecision hn
      rw [Nat.div_eq_of_lt hn] at h
      omega
    · have hbounds := Format.roundRatio_bounds hprecision hd (Nat.not_lt.1 hn)
      omega
  have hlimit : F.roundRatio n d < F.limit := by
    refine Nat.lt_of_lt_of_le hround ?_
    unfold Format.limit
    rw [Nat.one_shiftLeft, Nat.pow_add, ← Format.one_eq]
    exact Nat.mul_le_mul_right _ hrange
  unfold ofRatio ofUnits
  rwa [if_pos hlimit]

/-- The value of a natural number is below twice the next one. -/
theorem below_ofNat (hprecision : 0 < F.precision) (n : Nat) (hrange : 2 * (n + 1) ≤ 2 ^ F.rangeBits) :
    (ofNat n : Binary F).Below (2 * (n + 1)) := by
  refine below_ofRatio hprecision false Nat.one_pos ?_ hrange
  rw [Nat.div_one]
  exact Nat.mul_lt_mul_of_pos_right (Nat.lt_succ_self n) F.one_pos

/-! ## §3 Operations -/

theorem Below.neg (h : a.Below m) : (neg a).Below m := by
  obtain ⟨negative, units, rfl, hunits⟩ := h.exists_finite
  exact hunits

theorem Below.add (hprecision : 0 < F.precision) (ha : a.Below m) (hb : b.Below n)
    (hrange : 2 * (m + n) ≤ 2 ^ F.rangeBits) : (a + b).Below (2 * (m + n)) := by
  obtain ⟨s, u, rfl, hu⟩ := ha.exists_finite
  obtain ⟨t, v, rfl, hv⟩ := hb.exists_finite
  have hsum : u + v < (m + n) * F.one := by
    rw [Nat.add_mul]
    omega
  rw [add_eq]
  simp only [Binary.add]
  split
  · -- a sum of zero
    change 0 < 2 * (m + n) * F.one
    rw [Nat.mul_assoc]
    omega
  · refine below_ofRatio hprecision _ Nat.one_pos (Nat.lt_of_le_of_lt ?_ hsum) hrange
    have habs := Int.natAbs_add_le (signedUnits s u) (signedUnits t v)
    rwa [natAbs_signedUnits, natAbs_signedUnits, ← Nat.div_one (Int.natAbs _)] at habs

theorem Below.sub (hprecision : 0 < F.precision) (ha : a.Below m) (hb : b.Below n)
    (hrange : 2 * (m + n) ≤ 2 ^ F.rangeBits) : (a - b).Below (2 * (m + n)) := by
  rw [sub_eq, ← add_eq]
  exact ha.add hprecision hb.neg hrange

theorem Below.mul (hprecision : 0 < F.precision) (ha : a.Below m) (hb : b.Below n)
    (hrange : 2 * (m * n) ≤ 2 ^ F.rangeBits) : (a * b).Below (2 * (m * n)) := by
  obtain ⟨s, u, rfl, hu⟩ := ha.exists_finite
  obtain ⟨t, v, rfl, hv⟩ := hb.exists_finite
  rw [mul_eq]
  refine below_ofRatio hprecision _ F.one_pos ((Nat.div_lt_iff_lt_mul F.one_pos).2 ?_) hrange
  calc u * v < m * F.one * (n * F.one) := Nat.mul_lt_mul'' hu hv
    _ = m * n * F.one * F.one := by ac_rfl

/-- A quotient is below twice a bound if the bound of the dividend is below the divisor that many times. -/
theorem Below.div (hprecision : 0 < F.precision) (ha : a.Below m) (negative : Bool) {units : Nat}
    (hunits : m * F.one ≤ k * units) (hrange : 2 * k ≤ 2 ^ F.rangeBits) :
    (a / .finite negative units).Below (2 * k) := by
  obtain ⟨s, u, rfl, hu⟩ := ha.exists_finite
  have hpos : 0 < units := Nat.pos_of_mul_pos_left (Nat.lt_of_lt_of_le (Nat.zero_lt_of_lt hu) hunits)
  rw [div_eq]
  simp only [Binary.div]
  rw [if_neg (Nat.ne_of_gt hpos)]
  refine below_ofRatio hprecision _ hpos ((Nat.div_lt_iff_lt_mul hpos).2 ?_) hrange
  calc u * F.one < m * F.one * F.one := Nat.mul_lt_mul_of_pos_right hu F.one_pos
    _ ≤ k * units * F.one := Nat.mul_le_mul_right _ hunits
    _ = k * F.one * units := by ac_rfl

/-! ## §4 Values between two others -/

/-- A number that was brought between two numbers is one of them, or lies between them. -/
theorem exists_clamp {s t : Bool} {low high : Nat} (h : signedUnits s low ≤ signedUnits t high)
    (negative : Bool) (units : Nat) :
    ∃ sign found, clamp (.finite s low) (.finite t high) (.finite negative units : Binary F) =
        .finite sign found ∧
      signedUnits s low ≤ signedUnits sign found ∧ signedUnits sign found ≤ signedUnits t high := by
  unfold clamp lt
  by_cases hlow : signedUnits negative units < signedUnits s low
  · exact ⟨s, low, by simp [hlow, Int.not_lt.2 h], Int.le_refl _, h⟩
  · by_cases hhigh : signedUnits t high < signedUnits negative units
    · exact ⟨t, high, by simp [hlow, hhigh], h, Int.le_refl _⟩
    · exact ⟨negative, units, by simp [hlow, hhigh], Int.not_lt.1 hlow, Int.not_lt.1 hhigh⟩

end Resample.Binary
