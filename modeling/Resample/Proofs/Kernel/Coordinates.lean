import Resample.Proofs.Kernel.Faults

/-!
# Coordinates of the reads

The coordinates at which a launch reads are computed in the 32-bit format, where long sides and their quotients
are rounded, and may end up far from the texels that are meant. They are numbers all the same, and no greater
than a small multiple of the two sides: the center of the last pixel is about as far from the origin as the
source is long, and the reads are within a few texels of the centers. So where the sides are not too long, no
read comes near the longest integers.

## Contents

- §1 the displacement of the reads, §2 the centers, §3 the reads of a launch
-/

namespace Resample

open Binary (Format)

/-! ## §1 The displacement of the reads -/

/-- The side weight of a scale that is a number lies between zero and one. -/
theorem exists_sideWeight {scale : Single} {bound : Nat} (hscale : scale.Below bound)
    (hbound : 4 * (bound + 2) ≤ 2 ^ 128) :
    ∃ negative units, sideWeight scale = .finite negative units ∧
      0 ≤ Binary.signedUnits negative units ∧ Binary.signedUnits negative units ≤ Format.single.one := by
  have hprecision : 0 < Format.single.precision := by decide
  have hzero : (Binary.ofNat 0 : Single) = .finite false 0 := by decide +kernel
  have hone : (Binary.ofNat 1 : Single) = .finite false Format.single.one := by decide +kernel
  have hhalf : (Binary.ofHalves 1 : Single).Below 1 := by decide +kernel
  have hunit : (Binary.ofNat 1 : Single).Below 2 := by decide +kernel
  have hrange : 2 ^ Format.single.rangeBits = 2 ^ 128 := rfl
  -- what is clamped is a number
  have hexcess := hscale.sub hprecision hunit (by omega)
  obtain ⟨negative, units, hweight, -⟩ := (hhalf.mul hprecision hexcess (by omega)).exists_finite
  unfold sideWeight
  rw [hweight, hzero, hone]
  have hordered : Binary.signedUnits false 0 ≤ Binary.signedUnits false Format.single.one :=
    Int.natCast_nonneg _
  exact Binary.exists_clamp hordered negative units

/-- The reads for a side weight between zero and one are less than 16 texels from the center. -/
theorem below_displacement {negative : Bool} {units : Nat} (hlow : 0 ≤ Binary.signedUnits negative units)
    (hhigh : Binary.signedUnits negative units ≤ Format.single.one) :
    (displacement (.finite negative units)).Below 16 := by
  have hprecision : 0 < Format.single.precision := by decide
  have hhalf : (Binary.ofHalves 1 : Single) = .finite false Binary.Format.half := by decide +kernel
  have hlimit : 2 * (Binary.Format.half + Format.single.one) < Format.single.limit := by decide +kernel
  have hpos : 0 < Binary.Format.half := Nat.two_pow_pos 148
  have hunits : units ≤ Format.single.one := by
    rw [← Binary.natAbs_signedUnits negative units]
    omega
  have hone := Binary.Format.one_eq_two_mul_half
  -- the divisor is at least one half, and at least a quarter when it is rounded
  obtain ⟨divisor, hdivisor, hsum⟩ : ∃ divisor, Binary.Format.half ≤ 2 * divisor ∧
      (Binary.ofHalves 1 + .finite negative units : Single) = .finite false divisor := by
    rw [hhalf, Binary.add_eq]
    simp only [Binary.add]
    have hplus : Binary.signedUnits false Binary.Format.half = Binary.Format.half := rfl
    rw [if_neg (by omega), decide_eq_false (by omega)]
    obtain ⟨divisor, hdivisor, hvalue⟩ := Binary.exists_ofRatio_one (F := .single)
      (m := (Binary.signedUnits false Binary.Format.half + Binary.signedUnits negative units).natAbs)
      hprecision false (by omega) (by omega)
    exact ⟨divisor, by omega, hvalue⟩
  have hweight : (.finite negative units : Single).Below 2 := by
    change units < 2 * Format.single.one
    omega
  unfold displacement
  rw [hsum]
  exact hweight.div hprecision false (k := 8) (by omega) (by decide)

/-! ## §2 The centers -/

namespace AxisFilter

variable {source dest i : Nat}

/-- The scale of an axis is below a small multiple of the quotient of its sides. -/
theorem below_scale (hdest : 0 < dest) (hsides : source + dest ≤ 2 ^ 54) :
    (between source dest).scale.Below (2 * (4 * (source / dest + 1))) := by
  have hrange : 2 ^ Format.single.rangeBits = 2 ^ 128 := rfl
  have hquotient : source / dest ≤ source := Nat.div_le_self ..
  have hnext : source + 1 ≤ (source / dest + 1) * dest := by
    rw [Nat.succ_mul]
    exact Nat.lt_div_mul_add hdest
  obtain ⟨units, hunits, hvalue⟩ :=
    Binary.exists_ofNat (F := .single) (n := dest) (by decide) hdest (by omega)
  have hratio : 2 * (source + 1) * Format.single.one ≤ 4 * (source / dest + 1) * units := by
    calc 2 * (source + 1) * Format.single.one
        ≤ 2 * ((source / dest + 1) * dest) * Format.single.one :=
          Nat.mul_le_mul_right _ (Nat.mul_le_mul_left 2 hnext)
      _ = 2 * (source / dest + 1) * (dest * Format.single.one) := by ac_rfl
      _ ≤ 2 * (source / dest + 1) * (2 * units) := Nat.mul_le_mul_left _ hunits
      _ = 4 * (source / dest + 1) * units :=
        (Nat.mul_mul_mul_comm 2 _ 2 units).trans (Nat.mul_assoc 4 _ units).symm
  change (Binary.ofNat source / Binary.ofNat dest : Single).Below _
  rw [hvalue]
  exact (Binary.below_ofNat (by decide) source (by omega)).div (by decide) false hratio (by omega)

/-- The center of a pixel is below a multiple of the two sides. -/
theorem below_center (hi : i < dest) (hsides : source + dest ≤ 2 ^ 54) :
    ((between source dest).center i).Below (96 * (source + dest)) := by
  have hprecision : 0 < Format.single.precision := by decide
  have hrange : 2 ^ Format.single.rangeBits = 2 ^ 128 := rfl
  have hhalf : (Binary.ofHalves 1 : Single).Below 1 := by decide +kernel
  -- the pixel has its number, and the scale is about the quotient of the sides
  have hproduct : (i + 1) * (source / dest + 1) ≤ source + dest := by
    calc (i + 1) * (source / dest + 1) ≤ dest * (source / dest + 1) := Nat.mul_le_mul_right _ hi
      _ = dest * (source / dest) + dest := Nat.mul_succ ..
      _ ≤ source + dest := Nat.add_le_add_right (Nat.mul_div_le ..) _
  have hbound : 2 * (2 * (2 * (i + 1) + 1) * (2 * (4 * (source / dest + 1)))) ≤ 96 * (source + dest) := by
    have hfactors : 2 * (2 * (i + 1) + 1) * (2 * (4 * (source / dest + 1))) ≤
        6 * (i + 1) * (8 * (source / dest + 1)) := Nat.mul_le_mul (by omega) (by omega)
    rw [Nat.mul_mul_mul_comm 6 _ 8] at hfactors
    omega
  have hindex := (Binary.below_ofNat hprecision i (by omega)).add hprecision hhalf (by omega)
  exact (hindex.mul hprecision (below_scale (by omega) hsides) (by omega)).mono hbound

/-! ## §3 The reads of a launch -/

/-- Between sides that are not too long, no read comes near the longest integers. -/
theorem fetchesBelow_between (hi : i < dest) (hsides : source + dest ≤ 2 ^ 54) :
    (between source dest).FetchesBelow (2 ^ 62) i := by
  have hprecision : 0 < Format.single.precision := by decide
  have hrange : 2 ^ Format.single.rangeBits = 2 ^ 128 := rfl
  have hquotient : source / dest ≤ source := Nat.div_le_self ..
  have hcenter := below_center hi hsides
  obtain ⟨negative, units, hweight, hlow, hhigh⟩ :=
    exists_sideWeight (below_scale (Nat.zero_lt_of_lt hi) hsides) (by omega)
  have hoffset : (between source dest).offset.Below 16 := by
    have hdisplaced := below_displacement hlow hhigh
    rwa [← hweight] at hdisplaced
  exact ⟨(hcenter.sub hprecision hoffset (by omega)).mono (by omega),
    (hcenter.add hprecision hoffset (by omega)).mono (by omega)⟩

end AxisFilter

/-- A launch between sides that are not too long reads far from the longest integers. -/
theorem Request.fetchesBelow {r : Request} (hwidth : r.sourceWidth + r.destWidth ≤ 2 ^ 54)
    (hheight : r.sourceHeight + r.destHeight ≤ 2 ^ 54) : r.FetchesBelow (2 ^ 62) :=
  fun _ hx _ hy => ⟨AxisFilter.fetchesBelow_between hx hwidth, AxisFilter.fetchesBelow_between hy hheight⟩

end Resample
