import Mathlib.Tactic.FieldSimp
import Resample.Proofs.Number.Closest
import Resample.Proofs.Scaling.Limit
import Resample.Proofs.Scaling.Serving
import Resample.Scaling.Guarded

/-!
# Aspect ratios of outputs

A picture that is brought to other sides keeps its display aspect ratio: the sample aspect ratio of the output
is the closest ratio to the exact one. The ratio of the sides is reduced first, by itself, and multiplied then.
Nothing is lost in that, since the limit for sizes is the bound for the terms of a ratio: the first of the two
reductions finds the ratio of the sides itself. Nothing that is computed on the way is too long for its word.

## Contents

- §1 numbers within words, §2 targets of one value, §3 display aspect ratios, §4 results
-/

namespace Resample

/-! ## §1 Numbers within words -/

namespace Word

theorem held_topDouble {n : ℕ} (h : n ≤ 2 ^ 127) : held topDouble n = .ok n :=
  held_eq_ok (h.trans (by decide))

end Word

namespace Convergent

variable {bound N D num den : ℕ} {older last : Convergent}

theorem guardedExtend_eq {k : ℕ} (hnum : k * last.num + older.num ≤ 2 ^ 127)
    (hden : k * last.den + older.den ≤ 2 ^ 127) :
    guardedExtend older last k = .ok (extend older last k) := by
  unfold guardedExtend extend
  simp only [bind, Except.bind, Word.held_topDouble hnum, Word.held_topDouble hden,
    Word.held_topDouble (show k * last.num ≤ 2 ^ 127 by omega),
    Word.held_topDouble (show k * last.den ≤ 2 ^ 127 by omega)]
  rfl

theorem guardedFitting_eq (holder : older.Within bound) (limit : ℕ) :
    guardedFitting bound older last limit = .ok (fitting bound older last limit) := by
  unfold guardedFitting fitting
  rw [Word.minus_eq_ok holder.1, Word.minus_eq_ok holder.2]
  by_cases hnum : last.num = 0 <;> by_cases hden : last.den = 0
  all_goals
    simp only [hnum, hden, if_true, if_false]
    rfl

/-- The search for a close fraction computes no number that is too long for a double word. -/
theorem guardedClosest_eq (hbound : bound ≤ 2 ^ 126) (hN : N ≤ 2 ^ 126) (hD : D ≤ 2 ^ 126)
    (h : Reached bound N D num den older last) :
    guardedClosest bound num den older last = .ok (closest id bound num den older last) := by
  induction den using Nat.strong_induction_on generalizing num older last with
  | _ den ih =>
    rw [guardedClosest, closest]
    by_cases hden : den = 0
    · rw [dif_pos hden, dif_pos hden]
    · have hpos := Nat.pos_of_ne_zero hden
      have hwhole : den * (num / den) ≤ num := Nat.mul_div_le num den
      have hnum : num ≤ 2 ^ 126 := h.num_le.elim (·.trans hN) (·.trans hD)
      have holder := h.older_within
      have hnext : guardedExtend older last (num / den) = .ok (extend older last (num / den)) := by
        obtain ⟨hnums, hdens⟩ := h.combination_le (Nat.le_refl (num / den))
        exact guardedExtend_eq (by have := holder.1; omega) (by have := holder.2; omega)
      rw [dif_neg hden, dif_neg hden]
      simp only [bind, Except.bind, Word.held_topDouble (show den * (num / den) ≤ 2 ^ 127 by omega),
        Word.minus_eq_ok hwhole, hnext, guardedFitting_eq holder]
      by_cases hwithin : (extend older last (num / den)).Within bound
      · rw [if_pos hwithin, if_pos (show (extendCapped id older last _).Within _ from hwithin), ← Nat.mod_def]
        exact ih _ (Nat.mod_lt _ hpos) (h.next hwithin)
      · rw [if_neg hwithin, if_neg (show ¬ (extendCapped id older last _).Within _ from hwithin)]
        obtain ⟨hk, hmediant, -⟩ := fitting_spec holder hwithin
        generalize fitting bound older last (num / den) = k at hk hmediant ⊢
        obtain ⟨hcompared, hcompared'⟩ := h.compared_le hpos hk.le
        have hchosen : guardedExtend older last k = .ok (extend older last k) :=
          guardedExtend_eq (hmediant.1.trans (by omega)) (hmediant.2.trans (by omega))
        -- the numbers that are compared hold all that leads to them
        have hmirrored := Nat.le_mul_of_pos_left (2 * k * last.den + older.den) hpos
        have hk' : k ≤ num := hk.le.trans (Nat.div_le_self num den)
        simp only [Word.held_topDouble (show 2 * k ≤ 2 ^ 127 by omega),
          Word.held_topDouble (show 2 * k * last.den ≤ 2 ^ 127 by omega),
          Word.held_topDouble (show 2 * k * last.den + older.den ≤ 2 ^ 127 by omega),
          Word.held_topDouble (show den * (2 * k * last.den + older.den) ≤ 2 ^ 127 by omega),
          Word.held_topDouble (show num * last.den ≤ 2 ^ 127 by omega), hchosen, id]
        split <;> rfl

theorem guardedApproximate_eq (hpos : 0 < bound) (hbound : bound ≤ 2 ^ 126) (hN : N ≤ 2 ^ 126)
    (hD : D ≤ 2 ^ 126) : guardedApproximate bound N D = .ok (approximate Word.wide bound N D) := by
  rw [approximate_wide hpos (by omega) hD]
  unfold guardedApproximate approximate
  simp only
  split
  · rfl
  · exact guardedClosest_eq hbound ((Nat.div_le_self ..).trans hN) ((Nat.div_le_self ..).trans hD)
      (Reached.start hpos _ _)

end Convergent

namespace Ratio

theorem guardedReduce_eq {num den : ℤ} (hnum : num.natAbs ≤ 2 ^ 126) (hden : den.natAbs ≤ 2 ^ 126) :
    guardedReduce num den = .ok (reduce num den) := by
  unfold guardedReduce reduce
  by_cases hzero : num = 0 ∨ den = 0
  · rw [if_pos hzero, if_pos hzero]
    rfl
  · have hD : 0 < den.natAbs := Int.natAbs_pos.2 fun h => hzero (.inr h)
    have hwithin := (Convergent.isClosest_approximate (N := num.natAbs) (show 0 < bound by decide) hD).within
    rw [← Convergent.approximate_wide (by decide) (by decide) hden] at hwithin
    rw [if_neg hzero, if_neg hzero, Convergent.guardedApproximate_eq (by decide) (by decide) hnum hden]
    generalize Convergent.approximate Word.wide bound num.natAbs den.natAbs = c at hwithin ⊢
    -- the terms of a ratio are signed words of half as many bits
    have hword : bound ≤ Word.greatest.toNat := by decide
    simp only [bind, Except.bind, Word.held_eq_ok (hwithin.1.trans hword),
      Word.held_eq_ok (hwithin.2.trans hword)]
    split <;> rfl

theorem guardedMul_eq {a b : Ratio} (hnum : (a.num * b.num).natAbs ≤ 2 ^ 126)
    (hden : (a.den * b.den).natAbs ≤ 2 ^ 126) : a.guardedMul b = .ok (a.mul b) := by
  have hdouble : ∀ {i : ℤ}, i.natAbs ≤ 2 ^ 126 → Word.double i = .ok i := fun h => if_pos (by omega)
  unfold guardedMul mul
  simp only [bind, Except.bind, hdouble hnum, hdouble hden]
  exact guardedReduce_eq hnum hden

/-! ## §2 Targets of one value -/

/-- What is closest to a target is closest to every target that has its value, and its sign by terms. -/
theorem IsClosest.congr {num den num' den' : ℤ} {r : Ratio} (h : r.IsClosest num den)
    (hvalue : (num / den : ℚ) = num' / den') (hsign : num.sign * den.sign = num'.sign * den'.sign) :
    r.IsClosest num' den' where
  den_pos := h.den_pos
  num_le := h.num_le
  den_le := h.den_le
  coprime := h.coprime
  sign_eq := hsign ▸ h.sign_eq
  exact := hvalue ▸ h.exact
  closest := hvalue ▸ h.closest

/-- A ratio of positive terms within the bound is not changed by what is left out when it is reduced. -/
theorem reduce_of_le {num den : ℤ} (hnum : 0 < num) (hden : 0 < den) (hnumLe : num ≤ bound)
    (hdenLe : den ≤ bound) :
    (reduce num den).IsClosest num den ∧ 0 < (reduce num den).num ∧
      ((reduce num den).num / (reduce num den).den : ℚ) = num / den := by
  have hword : (bound : ℤ) ≤ 2 ^ 126 := by decide
  have hclosest := isClosest_reduce hnum.ne' hden.ne' (by omega)
  -- in lowest terms, the terms only become smaller
  have hterm : |(num / den : ℚ).num| ≤ bound := by
    rw [← Rat.divInt_eq_div]
    exact (Int.le_of_dvd (abs_pos.2 hnum.ne') (abs_dvd_abs _ _ |>.2 (Rat.num_dvd num hden.ne'))).trans
      (by rwa [abs_of_pos hnum])
  have hterm' : ((num / den : ℚ).den : ℤ) ≤ bound := by
    rw [← Rat.divInt_eq_div]
    exact (Int.le_of_dvd hden (Rat.den_dvd num den)).trans hdenLe
  have hvalue := hclosest.exact hterm (by exact_mod_cast hterm')
  refine ⟨hclosest, ?_, hvalue⟩
  have hpos : (0 : ℚ) < num / den := div_pos (by exact_mod_cast hnum) (by exact_mod_cast hden)
  have hdenPos : (0 : ℚ) < (reduce num den).den := by exact_mod_cast hclosest.den_pos
  rw [← hvalue, div_pos_iff_of_pos_right hdenPos] at hpos
  exact_mod_cast hpos

end Ratio

/-! ## §3 Display aspect ratios -/

namespace Scaler

/-- The sample aspect ratio that exactly keeps the display aspect ratio when the sides change. -/
def exactAspect (aspect : Ratio) (input output : ℕ × ℕ) : ℚ :=
  (aspect.num * output.2 * input.1) / (aspect.den * output.1 * input.2)

/-- What a sample aspect ratio becomes when the sides change. -/
structure KeepsDisplay (aspect : Ratio) (input output : ℕ × ℕ) (r : Ratio) : Prop where
  /-- A ratio with a term of zero is not known, and the one that it becomes is not known either. -/
  unknown : aspect.num = 0 ∨ aspect.den = 0 → r = .unknown
  /-- Else no ratio with bounded terms is closer to the one that exactly keeps the display aspect ratio. -/
  closest : aspect.num ≠ 0 → aspect.den ≠ 0 →
    r.IsClosest (aspect.num * output.2 * input.1) (aspect.den * output.1 * input.2)
  /-- If that one has bounded terms itself, the display aspect ratio is the same. -/
  display : aspect.num ≠ 0 → aspect.den ≠ 0 → |(exactAspect aspect input output).num| ≤ Ratio.bound →
    (exactAspect aspect input output).den ≤ Ratio.bound →
    (r.num / r.den * (output.1 / output.2) : ℚ) = aspect.num / aspect.den * (input.1 / input.2)
  /-- All numbers on the way are within their words. -/
  guarded : guardedRescaleAspect aspect input output = .ok r

variable {aspect : Ratio} {input output : ℕ × ℕ}

/-- Where the output is within the limit, its sides change a ratio by the ratio of the products. -/
theorem rescaleAspect_eq (hlimit : Size.WithinLimit input output) :
    rescaleAspect aspect input output =
      if aspect.isUnknown then .unknown
      else aspect.mul (Ratio.reduce (output.2 * input.1 : ℕ) (output.1 * input.2 : ℕ)) := by
  have hacross := hlimit.signedAcross
  have hdown := hlimit.signedDown
  push_cast at hacross hdown
  unfold rescaleAspect
  push_cast
  rw [hacross, hdown]

/-- The ratio of the products is found as it is, and has terms within the bound. -/
theorem ratio_of_sides (hlimit : Size.WithinLimit input output) (hwidth : 0 < input.1)
    (hheight : 0 < input.2) {sides : Ratio}
    (hsides : Ratio.reduce (output.2 * input.1 : ℕ) (output.1 * input.2 : ℕ) = sides) :
    0 < sides.num ∧ sides.num ≤ Ratio.bound ∧ 0 < sides.den ∧ sides.den ≤ Ratio.bound ∧
      (sides.num / sides.den : ℚ) = (output.2 * input.1) / (output.1 * input.2) := by
  have hacross : 0 < output.2 * input.1 := Nat.mul_pos hlimit.height hwidth
  have hdown : 0 < output.1 * input.2 := Nat.mul_pos hlimit.width hheight
  obtain ⟨hclosest, hpos, hvalue⟩ := Ratio.reduce_of_le (Int.natCast_pos.2 hacross)
    (Int.natCast_pos.2 hdown) hlimit.across hlimit.down
  rw [hsides] at hclosest hpos hvalue
  refine ⟨hpos, (le_abs_self _).trans hclosest.num_le, hclosest.den_pos, hclosest.den_le, ?_⟩
  rw [hvalue]
  push_cast
  rfl

/-- Terms of signed words, times terms within the bound, leave room in a double word. -/
theorem natAbs_mul_le {a b : ℤ} (ha : Word.least ≤ a) (ha' : a ≤ Word.greatest) (hb : 0 < b)
    (hb' : b ≤ Ratio.bound) : (a * b).natAbs ≤ 2 ^ 126 := by
  unfold Word.least at ha
  unfold Word.greatest at ha'
  unfold Ratio.bound at hb'
  calc (a * b).natAbs = a.natAbs * b.natAbs := Int.natAbs_mul a b
    _ ≤ 2 ^ 63 * 2 ^ 63 := Nat.mul_le_mul (by omega) (by omega)
    _ = 2 ^ 126 := by norm_num

/-- No number that leads to the ratio of an output is too long for its word. -/
theorem guardedRescaleAspect_eq (haspect : aspect.IsSigned) (hlimit : Size.WithinLimit input output)
    (hwidth : 0 < input.1) (hheight : 0 < input.2) :
    guardedRescaleAspect aspect input output = .ok (rescaleAspect aspect input output) := by
  rw [rescaleAspect_eq hlimit]
  obtain ⟨hnum, hnumLe, hden, hdenLe, -⟩ := ratio_of_sides hlimit hwidth hheight rfl
  have hbound : Size.productLimit ≤ 2 ^ 31 := by decide
  have hacross := hlimit.across
  have hdown := hlimit.down
  unfold guardedRescaleAspect
  split
  · rfl
  · have hword : ∀ {n : ℕ}, (n : ℤ) ≤ Size.productLimit → n ≤ Word.top ∧ n ≤ Word.greatest.toNat := by
      intro n hn
      have htop : 2 ^ 31 ≤ Word.top ∧ 2 ^ 31 ≤ Word.greatest.toNat := by decide
      omega
    simp only [bind, Except.bind, Word.held_eq_ok (hword hacross).1, Word.held_eq_ok (hword hacross).2,
      Word.held_eq_ok (hword hdown).1, Word.held_eq_ok (hword hdown).2]
    rw [Ratio.guardedReduce_eq (by omega) (by omega)]
    exact Ratio.guardedMul_eq (natAbs_mul_le haspect.1.1 haspect.1.2 hnum hnumLe)
      (natAbs_mul_le haspect.2.1 haspect.2.2 hden hdenLe)

/-- The closest ratio is found for the ratio and that of the sides together. -/
theorem isClosest_rescaleAspect (haspect : aspect.IsSigned) (hlimit : Size.WithinLimit input output)
    (hwidth : 0 < input.1) (hheight : 0 < input.2) (hknown : aspect.num ≠ 0) (hfinite : aspect.den ≠ 0) :
    (rescaleAspect aspect input output).IsClosest (aspect.num * output.2 * input.1)
      (aspect.den * output.1 * input.2) := by
  rw [rescaleAspect_eq hlimit, if_neg (by simpa [Ratio.isUnknown] using hknown)]
  generalize hsides : Ratio.reduce (output.2 * input.1 : ℕ) (output.1 * input.2 : ℕ) = sides
  obtain ⟨hnum, -, hden, hdenLe, hvalue⟩ := ratio_of_sides hlimit hwidth hheight hsides
  have hword := natAbs_mul_le haspect.2.1 haspect.2.2 hden hdenLe
  refine (Ratio.isClosest_reduce (mul_ne_zero hknown hnum.ne') (mul_ne_zero hfinite hden.ne') hword).congr ?_ ?_
  · -- the ratio of the sides has lost nothing, so the product has the value of the exact one
    push_cast
    rw [mul_div_mul_comm, hvalue, ← mul_div_mul_comm, mul_assoc, mul_assoc]
  · -- the sides do not change the sign
    have hsign : ∀ {a b : ℕ}, 0 < a → 0 < b → ∀ i : ℤ, (i * a * b).sign = i.sign := by
      intro a b ha hb i
      rw [Int.sign_mul, Int.sign_mul, Int.sign_natCast_of_ne_zero ha.ne', Int.sign_natCast_of_ne_zero hb.ne',
        mul_one, mul_one]
    rw [Int.sign_mul, Int.sign_mul, Int.sign_eq_one_of_pos hnum, Int.sign_eq_one_of_pos hden, mul_one, mul_one,
      hsign hlimit.height hwidth, hsign hlimit.width hheight]

/-- A sample aspect ratio of signed words keeps the display aspect ratio, where the output is within the
limit. -/
theorem keepsDisplay_rescaleAspect (haspect : aspect.IsSigned) (hlimit : Size.WithinLimit input output)
    (hwidth : 0 < input.1) (hheight : 0 < input.2) :
    KeepsDisplay aspect input output (rescaleAspect aspect input output) where
  unknown := by
    intro hzero
    rw [rescaleAspect_eq hlimit]
    split
    · rfl
    · next hknown =>
      -- a product of ratios is not known either if a term is zero
      refine if_pos ?_
      rcases hzero with hnum | hden
      · exact .inl (by rw [hnum, zero_mul])
      · exact .inr (by rw [hden, zero_mul])
  closest := isClosest_rescaleAspect haspect hlimit hwidth hheight
  display := by
    intro hknown hfinite hterm hterm'
    have hclosest := isClosest_rescaleAspect haspect hlimit hwidth hheight hknown hfinite
    have hexact := hclosest.exact
    push_cast at hexact
    rw [hexact hterm hterm']
    have hfinite' : (aspect.den : ℚ) ≠ 0 := by exact_mod_cast hfinite
    have hwide : (output.1 : ℚ) ≠ 0 := by exact_mod_cast (Nat.pos_iff_ne_zero.1 hlimit.width)
    have hhigh : (output.2 : ℚ) ≠ 0 := by exact_mod_cast (Nat.pos_iff_ne_zero.1 hlimit.height)
    have hheight' : (input.2 : ℚ) ≠ 0 := by exact_mod_cast hheight.ne'
    field_simp
  guarded := guardedRescaleAspect_eq haspect hlimit hwidth hheight

/-! ## §4 Results -/

/-- A result has the ratio of its frame, changed with the sides. -/
theorem aspect_of_process_ok {t : Scaler} {frame result : Frame} (h : (t.process frame).1 = .ok result) :
    result.aspect = rescaleAspect frame.aspect (t.input.shape.width, t.input.shape.height)
      (t.output.shape.width, t.output.shape.height) := by
  have houtcome := t.outcome_process frame
  generalize t.process frame = outcome at h houtcome
  cases houtcome with
  | mismatch | allocation | stopped => cases h
  | written =>
    cases h
    rfl

/-- Scaling keeps the display aspect ratio. A scaler for an input whose sides are their own signed readings has
an output with the ratio that keeps that of the input, and after any calls, every result has the ratio that keeps
that of its frame. There is a result for each frame of the input, if no misshapen frame was handed back and there
is memory. -/
theorem keepsDisplay_of_configure {config : Config} {input : Stream} {s : Scaler}
    (hs : configure config input = .ok s) (hwidth : input.shape.width ≤ Word.greatest)
    (hheight : input.shape.height ≤ Word.greatest) :
    (input.aspect.IsSigned →
      KeepsDisplay input.aspect (input.shape.width, input.shape.height)
        (s.output.shape.width, s.output.shape.height) s.output.aspect) ∧
    ∀ (heard : Option (List Event)) (calls : List Call) (frame : Frame), frame.aspect.IsSigned →
      (∀ result, ((({ s with heard } : Scaler).run calls).process frame).1 = .ok result →
        KeepsDisplay frame.aspect (input.shape.width, input.shape.height)
          (s.output.shape.width, s.output.shape.height) result.aspect) ∧
      ((∀ f, .recycle f ∈ calls → f.Conforms) → frame.Matches input.shape →
        ∀ new, Frame.zeros s.output.shape = .ok new →
          ∃ result, ((({ s with heard } : Scaler).run calls).process frame).1 = .ok result) := by
  have hlimit := withinLimit_of_configure hs hwidth hheight
  have hserves := serves_of_configure hs
  have hinput := hserves.input_eq
  have hinWidth := hserves.sound.inputWidth_pos
  have hinHeight := hserves.sound.inputHeight_pos
  rw [hinput] at hinWidth hinHeight
  refine ⟨fun haspect => ?_, fun heard calls frame haspect => ?_⟩
  · have hkeeps := keepsDisplay_rescaleAspect haspect hlimit hinWidth hinHeight
    obtain ⟨-, -, size, jobs, -, -, rfl⟩ := configure_eq_ok_iff.1 hs
    exact hkeeps
  · -- what a run changes does not tell in the ratio, nor in the shape that a result has
    obtain ⟨pool, heard', count, hrun⟩ := ({ s with heard } : Scaler).sameSetup_run calls
    refine ⟨fun result hresult => ?_, fun hcalls hframe new hnew => ?_⟩
    · rw [hrun] at hresult
      rw [aspect_of_process_ok hresult]
      simp only [hinput]
      exact keepsDisplay_rescaleAspect haspect hlimit hinWidth hinHeight
    · obtain ⟨hshape, hconforms⟩ := Frame.matches_iff.1 hframe
      obtain ⟨result, hresult, -⟩ := ((hserves.withHeard heard).run hcalls).exists_shows hshape hconforms
        fun _ => ⟨new, by rw [hrun]; exact hnew⟩
      exact ⟨result, hresult⟩

/-- A picture of 4 by 4 pixels loses every other row, so its pixels become twice as high. Their aspect ratio was
4 to 3 in the stream, and is that of the longest terms in a frame. -/
theorem keepsDisplay_of_configure_rows :
    ∃ s frame result,
      configure { Config.identity with height := "vsub" } ⟨⟨.yuv420p, 4, 4⟩, ⟨4, 3⟩⟩ = .ok s ∧
      s.output.shape = ⟨.yuv420p, 4, 2⟩ ∧
      (s.output.aspect.num / s.output.aspect.den * ((4 : ℕ) / (2 : ℕ)) : ℚ) =
        (4 : ℤ) / (3 : ℤ) * ((4 : ℕ) / (4 : ℕ)) ∧
      frame.aspect = ⟨Word.least, Word.greatest⟩ ∧ (s.process frame).1 = .ok result ∧
      KeepsDisplay ⟨Word.least, Word.greatest⟩ (4, 4) (4, 2) result.aspect := by
  let input : Stream := ⟨⟨.yuv420p, 4, 4⟩, ⟨4, 3⟩⟩
  let config : Config := { Config.identity with height := "vsub" }
  obtain ⟨jobs, hjobs⟩ : ∃ jobs, jobsFor? ⟨.yuv420p, 4, 4⟩ ⟨.yuv420p, 4, 2⟩ false = some jobs := ⟨_, rfl⟩
  obtain ⟨zeros, hzeros⟩ : ∃ zeros, Frame.zeros ⟨.yuv420p, 4, 4⟩ = .ok zeros := ⟨_, rfl⟩
  obtain ⟨new, hnew⟩ : ∃ new, Frame.zeros ⟨.yuv420p, 4, 2⟩ = .ok new := ⟨_, rfl⟩
  have hvalue : ∀ n ∈ [2, 4], (Binary.ofNat n : Double).truncate? = some (n : ℤ) ∧
      ((Binary.ofNat Size.valueLimit).lt (Binary.ofNat n : Double) ||
        (Binary.ofNat n : Double).lt (-Binary.ofNat Size.valueLimit)) = false := by decide +kernel
  have hiw : ∀ w h, Size.evaluate (Size.environment input .yuv420p w h) "iw" = .ok 4 := fun w h =>
    Size.evaluate_name (Size.tokenize_name rfl rfl rfl) rfl (hvalue 4 (by decide)).1
      (hvalue 4 (by decide)).2
  have hvsub : ∀ w h, Size.evaluate (Size.environment input .yuv420p w h) "vsub" = .ok 2 := fun w h =>
    Size.evaluate_name (Size.tokenize_name rfl rfl rfl) rfl (hvalue 2 (by decide)).1
      (hvalue 2 (by decide)).2
  have hsize : Size.outputSize "iw" "vsub" input .yuv420p = .ok (4, 2) := by
    unfold Size.outputSize
    simp only [hiw, hvsub, mapError_ok, bind, Except.bind]
    exact Size.resolve_of_pos (by decide) (by decide) (by decide) (by decide)
  have hs : configure config input = .ok _ :=
    configure_eq_ok_iff.2 ⟨by decide, by decide, (4, 2), jobs, hsize, hjobs, rfl⟩
  obtain ⟨houtput, hframes⟩ := keepsDisplay_of_configure hs (by decide) (by decide)
  have haspect : (⟨Word.least, Word.greatest⟩ : Ratio).IsSigned := by decide
  let frame : Frame := { zeros with aspect := ⟨Word.least, Word.greatest⟩ }
  have hzeros' := Frame.matches_zeros hzeros
  have hframe : frame.Matches input.shape := ⟨hzeros'.shape, hzeros'.geometry⟩
  obtain ⟨hkeeps, hexists⟩ := hframes none [] frame haspect
  obtain ⟨result, hresult⟩ := hexists (by simp) hframe new hnew
  -- 2 to 3 has bounded terms
  have hexact : exactAspect ⟨4, 3⟩ (4, 4) (4, 2) = 2 / 3 := by norm_num [exactAspect]
  have hterms : |(exactAspect ⟨4, 3⟩ (4, 4) (4, 2)).num| ≤ Ratio.bound ∧
      (exactAspect ⟨4, 3⟩ (4, 4) (4, 2)).den ≤ Ratio.bound := by
    rw [hexact]
    decide +kernel
  have hdisplay := (houtput (by decide)).display (by decide) (by decide) hterms.1 hterms.2
  exact ⟨_, frame, result, hs, rfl, hdisplay, rfl, hresult, hkeeps result hresult⟩

end Scaler

end Resample
