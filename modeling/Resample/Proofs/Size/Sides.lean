import Mathlib.Algebra.Order.Round
import Mathlib.Data.Rat.Floor
import Mathlib.Tactic.Linarith
import Mathlib.Tactic.Ring
import Mathlib.Tactic.FieldSimp
import Resample.Size.Guarded
import Resample.Proofs.Steps

/-!
# Sides that keep the aspect ratio

A side of `-n` becomes the multiple of `n` that is nearest to the side with which the aspect ratio of the input
is kept, halves upwards. The quotient of the rounded division is multiplied by `n` and by a side of the input
again, which it was divided by, so that no number on the way is longer than a double word, however great `n` is.

## Contents

- §1 rounded quotients, §2 the sides of an output, §3 numbers within double words, §4 outcomes
-/

namespace Resample

namespace Size

/-! ## §1 Rounded quotients -/

/-- A quotient of numbers that are not negative is rounded to the nearest integer, halves upwards. -/
theorem rescale_eq_round {a b c : Int} (hab : 0 ≤ a * b) (hc : 0 < c) :
    rescale a b c = round ((a * b : ℚ) / c) := by
  have hcast : (0 : ℚ) < c := Int.cast_pos.2 hc
  have hhalf : 0 ≤ c.tdiv 2 ∧ 2 * c.tdiv 2 ≤ c ∧ c ≤ 2 * c.tdiv 2 + 1 := by
    rw [Int.tdiv_eq_ediv_of_nonneg hc.le]
    omega
  unfold rescale
  rw [if_neg hc.ne', Int.tdiv_eq_ediv_of_nonneg (by omega)]
  generalize c.tdiv 2 = half at hhalf
  obtain ⟨-, hle, hge⟩ := hhalf
  -- the quotient and its remainder
  have hdiv := Int.mul_ediv_add_emod (a * b + half) c
  have hnonneg := Int.emod_nonneg (a * b + half) hc.ne'
  have hlt := Int.emod_lt_of_pos (a * b + half) hc
  generalize (a * b + half) / c = k at hdiv
  have hlow : (2 * k - 1) * c ≤ 2 * (a * b) := by linarith
  have hhigh : 2 * (a * b) < (2 * k + 1) * c := by linarith
  have hlow' : ((2 * k - 1) * c : ℚ) ≤ 2 * (a * b) := by exact_mod_cast hlow
  have hhigh' : (2 * (a * b) : ℚ) < (2 * k + 1) * c := by exact_mod_cast hhigh
  refine (round_eq_iff.2 ⟨?_, ?_⟩).symm
  · rw [le_div_iff₀ hcast]
    linarith
  · rw [div_lt_iff₀ hcast]
    linarith

/-! ## §2 The sides of an output -/

/-- The multiple of `n` that is nearest to the side which is to `other` as `inSide` is to `inOther`. -/
def nearestMultiple (n other inSide inOther : Int) : Int := n * round ((other * inSide : ℚ) / (n * inOther))

/-- The sides that two values ask for. -/
def sides (width height inWidth inHeight : Int) : Int × Int :=
  if width < 0 ∧ height < 0 then (inWidth, inHeight)
  else if width < 0 then (nearestMultiple (-width) height inWidth inHeight, height)
  else if height < 0 then (width, nearestMultiple (-height) width inHeight inWidth)
  else (width, height)

/-- A nearest multiple is no farther than half of what it is a multiple of. -/
theorem abs_nearestMultiple_sub_le {n inOther : Int} (hn : 0 < n) (hin : 0 < inOther) (other inSide : Int) :
    |(nearestMultiple n other inSide inOther : ℚ) - other * inSide / inOther| ≤ n / 2 := by
  have hn' : (0 : ℚ) < n := Int.cast_pos.2 hn
  have hin' : (0 : ℚ) < inOther := Int.cast_pos.2 hin
  have hround := abs_sub_round ((other * inSide : ℚ) / (n * inOther))
  have hexact : (other * inSide / inOther : ℚ) = n * (other * inSide / (n * inOther)) := by field_simp
  calc |(nearestMultiple n other inSide inOther : ℚ) - other * inSide / inOther|
      = n * |(other * inSide : ℚ) / (n * inOther) - round ((other * inSide : ℚ) / (n * inOther))| := by
        rw [nearestMultiple, hexact, Int.cast_mul, ← mul_sub, abs_mul, abs_of_pos hn', abs_sub_comm]
    _ ≤ n * (1 / 2) := mul_le_mul_of_nonneg_left hround hn'.le
    _ = n / 2 := by ring

/-- A negative value asks for a multiple of its opposite. -/
theorem multiple_of_neg {value : Int} (h : value < 0) : multiple value = -value := by
  unfold multiple
  split <;> omega

/-- The side that follows the other one. -/
theorem rescale_mul_eq {n other inSide inOther : Int} (hn : 0 < n) (hother : 0 < other) (hin : 0 < inSide)
    (hin' : 0 < inOther) : rescale other inSide (inOther * n) * n = nearestMultiple n other inSide inOther := by
  rw [rescale_eq_round (mul_pos hother hin).le (mul_pos hin' hn), nearestMultiple, Int.mul_comm, Int.cast_mul,
    mul_comm (inOther : ℚ)]

/-- Values of two expressions, neither of which is zero, and the sides of an input, within the words that
hold them. -/
structure InWords (width height inWidth inHeight : Int) : Prop where
  width_ne : width ≠ 0
  height_ne : height ≠ 0
  width_le : |width| ≤ 2 ^ 62
  height_le : |height| ≤ 2 ^ 62
  inWidth_pos : 1 ≤ inWidth
  inHeight_pos : 1 ≤ inHeight
  inWidth_lt : inWidth < 2 ^ 63
  inHeight_lt : inHeight < 2 ^ 63

variable {width height inWidth inHeight : Int}

theorem derive_eq (hs : InWords width height inWidth inHeight) :
    derive width height inWidth inHeight = sides width height inWidth inHeight := by
  obtain ⟨hwidth, hheight, -, -, hinWidth, hinHeight, -, -⟩ := hs
  unfold derive sides
  by_cases hw : width < 0
  · by_cases hh : height < 0
    · simp only [hw, hh, true_and, if_true]
      rw [if_neg (by omega), if_neg (by omega)]
    · simp only [hw, hh, and_false, if_false, if_true]
      rw [multiple_of_neg hw, rescale_mul_eq (by omega) (by omega) (by omega) (by omega)]
  · by_cases hh : height < 0
    · simp only [hw, hh, false_and, if_false, if_true]
      rw [multiple_of_neg hh, rescale_mul_eq (by omega) (by omega) (by omega) (by omega)]
    · simp only [hw, hh, false_and, if_false]

/-! ## §3 Numbers within double words -/

theorem double_eq_ok {i : Int} (h : 0 ≤ i) (h' : i ≤ 2 ^ 126) : Word.double i = .ok i :=
  if_pos (by omega)

/-- A value times a side of the input leaves room in a double word. -/
theorem value_mul_side_le {value side : Int} (hvalue : value ≤ 2 ^ 62) (hside : 0 < side)
    (hlt : side < 2 ^ 63) : value * side ≤ 2 ^ 125 :=
  mul_le_mul hvalue hlt.le hside.le (by norm_num)

theorem guardedMultiple_eq {value : Int} (h : |value| ≤ 2 ^ 62) :
    guardedMultiple value = .ok (multiple value) := by
  have hle := abs_le.1 h
  unfold guardedMultiple multiple
  split
  · exact double_eq_ok (by omega) (by omega)
  · rfl

/-- A rounded quotient, times its divisor, is not above the rounded dividend. -/
theorem guardedRescale_eq {a b c : Int} (hab : 0 ≤ a * b) (hc : 0 < c) (habLe : a * b ≤ 2 ^ 125)
    (hcLe : c ≤ 2 ^ 125) :
    guardedRescale a b c = .ok (rescale a b c) ∧ 0 ≤ rescale a b c ∧ rescale a b c * c ≤ 2 ^ 126 := by
  have hhalf : 0 ≤ c.tdiv 2 ∧ 2 * c.tdiv 2 ≤ c := by
    rw [Int.tdiv_eq_ediv_of_nonneg hc.le]
    omega
  have hquotient := Int.tdiv_eq_ediv_of_nonneg (show 0 ≤ a * b + c.tdiv 2 by omega) (b := c)
  have hnonneg : 0 ≤ (a * b + c.tdiv 2) / c := Int.ediv_nonneg (by omega) hc.le
  have hmul : (a * b + c.tdiv 2) / c * c ≤ a * b + c.tdiv 2 := Int.ediv_mul_le _ hc.ne'
  have hle : (a * b + c.tdiv 2) / c ≤ (a * b + c.tdiv 2) / c * c := le_mul_of_one_le_right hnonneg hc
  have htotal : Word.double (a * b + c.tdiv 2) = .ok (a * b + c.tdiv 2) :=
    double_eq_ok (by omega) (by omega)
  unfold guardedRescale rescale
  rw [if_neg hc.ne', if_neg hc.ne', double_eq_ok hab (by omega), double_eq_ok hhalf.1 (by omega)]
  simp only [bind, Except.bind, htotal, hquotient]
  exact ⟨double_eq_ok hnonneg (by omega), hnonneg, by omega⟩

/-- Nothing that leads to a nearest multiple is longer than a double word, nor is its product with a side of the
input, which the quotient was divided by. -/
theorem guardedFollow_eq (n other inSide inOther : Int) (hn : 0 < n) (hother : 0 < other) (hin : 0 < inSide)
    (hin' : 0 < inOther) (hnLe : n ≤ 2 ^ 62) (hotherLe : other ≤ 2 ^ 62) (hinLt : inSide < 2 ^ 63)
    (hinLt' : inOther < 2 ^ 63) :
    guardedFollow n other inSide inOther = .ok (nearestMultiple n other inSide inOther) ∧
      nearestMultiple n other inSide inOther * inOther ≤ 2 ^ 126 := by
  have hdivisor : inOther * n ≤ 2 ^ 125 := Int.mul_comm n inOther ▸ value_mul_side_le hnLe hin' hinLt'
  have hdivisorPos := mul_pos hin' hn
  obtain ⟨hquotient, hnonneg, hmul⟩ :=
    guardedRescale_eq (mul_pos hother hin).le hdivisorPos (value_mul_side_le hotherLe hin hinLt) hdivisor
  rw [← rescale_mul_eq hn hother hin hin']
  generalize rescale other inSide (inOther * n) = q at hquotient hnonneg hmul
  have hside : 0 ≤ q * n := mul_nonneg hnonneg hn.le
  have hback : q * n * inOther = q * (inOther * n) := by ring
  have hle : q * n ≤ q * n * inOther := le_mul_of_one_le_right hside hin'
  -- the last product is back below the divisor's, since the quotient was divided by it
  unfold guardedFollow
  rw [double_eq_ok hdivisorPos.le (by omega)]
  simp only [bind, Except.bind, hquotient]
  exact ⟨double_eq_ok hside (by omega), by omega⟩

/-- The sides of an output are computed within double words, as are their products with the sides of the
input. -/
theorem guardedDerive_eq (hs : InWords width height inWidth inHeight) :
    guardedDerive width height inWidth inHeight = .ok (sides width height inWidth inHeight) ∧
      (sides width height inWidth inHeight).2 * inWidth ≤ 2 ^ 126 ∧
      (sides width height inWidth inHeight).1 * inHeight ≤ 2 ^ 126 := by
  obtain ⟨hwidth, hheight, hwidthLe, hheightLe, hinWidth, hinHeight, hinWidthLt, hinHeightLt⟩ := hs
  have hw' := abs_le.1 hwidthLe
  have hh' := abs_le.1 hheightLe
  unfold guardedDerive sides
  rw [guardedMultiple_eq hwidthLe, guardedMultiple_eq hheightLe]
  simp only [bind, Except.bind, pure, Except.pure]
  by_cases hw : width < 0 <;> by_cases hh : height < 0
  · -- both sides of the input
    have hproduct : inHeight * inWidth ≤ 2 ^ 63 * 2 ^ 63 :=
      mul_le_mul hinHeightLt.le hinWidthLt.le (by omega) (by norm_num)
    have hproduct' : inWidth * inHeight = inHeight * inWidth := Int.mul_comm _ _
    simp only [hw, hh, true_and, if_true, if_neg (show ¬ inWidth < 0 by omega),
      if_neg (show ¬ inHeight < 0 by omega)]
    omega
  · -- the width follows the height
    have hproduct := value_mul_side_le hh'.2 hinWidth hinWidthLt
    obtain ⟨hfollow, hback⟩ := guardedFollow_eq (-width) height inWidth inHeight (by omega) (by omega)
      (by omega) (by omega) (by omega) (by omega) hinWidthLt hinHeightLt
    simp only [hw, hh, and_false, if_true, if_false, multiple_of_neg hw, hfollow]
    exact ⟨trivial, by omega, hback⟩
  · -- the height follows the width
    have hproduct := value_mul_side_le hw'.2 hinHeight hinHeightLt
    obtain ⟨hfollow, hback⟩ := guardedFollow_eq (-height) width inHeight inWidth (by omega) (by omega)
      (by omega) (by omega) (by omega) (by omega) hinHeightLt hinWidthLt
    simp only [hw, hh, false_and, if_true, if_false, multiple_of_neg hh, hfollow]
    exact ⟨trivial, hback, by omega⟩
  · -- both values themselves
    have hproduct := value_mul_side_le hh'.2 hinWidth hinWidthLt
    have hproduct' := value_mul_side_le hw'.2 hinHeight hinHeightLt
    simp only [hw, hh, and_self, if_false]
    exact ⟨trivial, by omega, by omega⟩

/-- Nothing that leads to an output size is longer than a double word. -/
theorem guardedResolve_eq (hs : InWords width height inWidth inHeight) :
    guardedResolve width height inWidth inHeight = .ok (resolve width height inWidth inHeight) := by
  obtain ⟨hderive, hacross, hdown⟩ := guardedDerive_eq hs
  have hinWidth := hs.inWidth_pos
  have hinHeight := hs.inHeight_pos
  unfold guardedResolve resolve
  rw [hderive, derive_eq hs]
  generalize sides width height inWidth inHeight = p at hacross hdown
  obtain ⟨w, h⟩ := p
  simp only [bind, Except.bind, pure, Except.pure] at hacross hdown ⊢
  by_cases hpos : w ≤ 0 ∨ h ≤ 0
  · rw [if_pos hpos, if_pos hpos]
  · have hacross' : 0 ≤ h * inWidth := mul_nonneg (by omega) (by omega)
    have hdown' : 0 ≤ w * inHeight := mul_nonneg (by omega) (by omega)
    rw [if_neg hpos, if_neg hpos]
    simp only [double_eq_ok hacross' hacross, double_eq_ok hdown' hdown]
    by_cases hlong : productLimit < h * inWidth
    · rw [if_pos hlong, if_pos (.inl hlong)]
    · by_cases hhigh : productLimit < w * inHeight
      · rw [if_neg hlong, if_pos hhigh, if_pos (.inr hhigh)]
      · rw [if_neg hlong, if_neg hhigh, if_neg (by tauto)]

/-! ## §4 Outcomes -/

/-- A side within the limit is its own word. -/
theorem unsigned_eq_toNat {side : Int} (hside : 0 ≤ side) (hle : side < 2 ^ 63) :
    Word.unsigned side = side.toNat := by
  unfold Word.unsigned Word.count
  rw [Int.emod_eq_of_lt hside (by omega)]

/-- The outcome for two values, told by the sides that they ask for. -/
theorem resolve_eq (hs : InWords width height inWidth inHeight) {w h : Int}
    (hsides : sides width height inWidth inHeight = (w, h)) :
    resolve width height inWidth inHeight =
      if w ≤ 0 ∨ h ≤ 0 then .error (.invalid (Word.saturate w) (Word.saturate h))
      else if productLimit < h * inWidth ∨ productLimit < w * inHeight then
        .error (.tooLarge (Word.saturate w) (Word.saturate h) inWidth.toNat inHeight.toNat)
      else .ok (w.toNat, h.toNat) := by
  obtain ⟨-, -, -, -, hinWidth, hinHeight, hinWidthLt, hinHeightLt⟩ := id hs
  unfold resolve
  rw [derive_eq hs, hsides, unsigned_eq_toNat (by omega) hinWidthLt, unsigned_eq_toNat (by omega) hinHeightLt]
  refine ite_congr rfl (fun _ => rfl) fun hpos => ite_congr rfl (fun _ => rfl) fun hlimit => ?_
  have hlimitLt : productLimit < 2 ^ 63 := by decide
  have hh : h ≤ h * inWidth := le_mul_of_one_le_right (by omega) hinWidth
  have hw : w ≤ w * inHeight := le_mul_of_one_le_right (by omega) hinHeight
  rw [unsigned_eq_toNat (by omega) (by omega), unsigned_eq_toNat (by omega) (by omega)]

/-- Sides that keep the aspect ratio are the nearest multiples. Of two values that are not zero, two negative
ones ask for the sides of the input, and a single negative one, `-n`, asks for the multiple of `n` nearest to
the side that keeps the aspect ratio of the input with the other one. There is no output size if a side is not
positive, and else if the product of a side and the other side of the input is beyond the limit; else these
sides are the output size. No number on the way is longer than a double word. -/
theorem resolve_nearest (hs : InWords width height inWidth inHeight) :
    guardedResolve width height inWidth inHeight = .ok (resolve width height inWidth inHeight) ∧
    ∃ w h : Int,
      (width < 0 → height < 0 → w = inWidth ∧ h = inHeight) ∧
      (width < 0 → 0 < height → h = height ∧
        w = -width * round ((height * inWidth : ℚ) / (-width * inHeight)) ∧
        |(w : ℚ) - height * inWidth / inHeight| ≤ -width / 2) ∧
      (0 < width → height < 0 → w = width ∧
        h = -height * round ((width * inHeight : ℚ) / (-height * inWidth)) ∧
        |(h : ℚ) - width * inHeight / inWidth| ≤ -height / 2) ∧
      (0 < width → 0 < height → w = width ∧ h = height) ∧
      (resolve width height inWidth inHeight = .error (.invalid (Word.saturate w) (Word.saturate h)) ↔
        w ≤ 0 ∨ h ≤ 0) ∧
      (resolve width height inWidth inHeight =
          .error (.tooLarge (Word.saturate w) (Word.saturate h) inWidth.toNat inHeight.toNat) ↔
        0 < w ∧ 0 < h ∧ (productLimit < h * inWidth ∨ productLimit < w * inHeight)) ∧
      (resolve width height inWidth inHeight = .ok (w.toNat, h.toNat) ↔
        0 < w ∧ 0 < h ∧ h * inWidth ≤ productLimit ∧ w * inHeight ≤ productLimit) := by
  obtain ⟨w, h, hsides⟩ : ∃ w h, sides width height inWidth inHeight = (w, h) := ⟨_, _, rfl⟩
  refine ⟨guardedResolve_eq hs, w, h, fun hw hh => ?_, fun hw hh => ?_, fun hw hh => ?_, fun hw hh => ?_, ?_⟩
  · rw [sides, if_pos ⟨hw, hh⟩] at hsides
    cases hsides
    exact ⟨rfl, rfl⟩
  · rw [sides, if_neg (by omega), if_pos hw] at hsides
    cases hsides
    have hnear := abs_nearestMultiple_sub_le (show 0 < -width by omega) hs.inHeight_pos height inWidth
    rw [Int.cast_neg] at hnear
    exact ⟨rfl, by rw [nearestMultiple, Int.cast_neg], hnear⟩
  · rw [sides, if_neg (by omega), if_neg (by omega), if_pos hh] at hsides
    cases hsides
    have hnear := abs_nearestMultiple_sub_le (show 0 < -height by omega) hs.inWidth_pos width inHeight
    rw [Int.cast_neg] at hnear
    exact ⟨rfl, by rw [nearestMultiple, Int.cast_neg], hnear⟩
  · rw [sides, if_neg (by omega), if_neg (by omega), if_neg (by omega)] at hsides
    cases hsides
    exact ⟨rfl, rfl⟩
  · rw [resolve_eq hs hsides]
    split_ifs with hpos hlimit
    · exact ⟨iff_of_true rfl hpos, iff_of_false nofun (by omega), iff_of_false nofun (by omega)⟩
    · exact ⟨iff_of_false nofun hpos, iff_of_true rfl (by omega), iff_of_false nofun (by omega)⟩
    · exact ⟨iff_of_false nofun hpos, iff_of_false nofun (by omega), iff_of_true rfl (by omega)⟩

/-- The width of a picture of 2 by 1 that is to be 3 pixels high is 6, halfway between two multiples of 4. -/
theorem resolve_nearest_halfway :
    InWords (-4) 3 2 1 ∧ guardedResolve (-4) 3 2 1 = .ok (.ok (8, 3)) := by
  have hs : InWords (-4) 3 2 1 := by constructor <;> decide
  obtain ⟨hguarded, w, h, -, hfollow, -, -, -, -, hsize⟩ := resolve_nearest hs
  obtain ⟨rfl, hw, -⟩ := hfollow (by decide) (by decide)
  have hround : round (((3 : Int) * (2 : Int) : ℚ) / (-(-4 : Int) * (1 : Int))) = 2 := by
    rw [round_eq_iff]
    norm_num
  obtain rfl : w = 8 := by rw [hw, hround]; rfl
  exact ⟨hs, by rw [hguarded, hsize.2 (by decide)]; rfl⟩

end Size

end Resample
