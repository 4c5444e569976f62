import Mathlib.Algebra.Order.Field.Basic
import Mathlib.Algebra.Order.Field.Rat
import Mathlib.Algebra.Order.Ring.Abs
import Mathlib.RingTheory.Coprime.Lemmas
import Mathlib.Tactic.Linarith
import Mathlib.Tactic.Ring
import Resample.Number.Ratio

/-!
# Closest fractions

The search for a close fraction walks the continued fraction of its target. Two consecutive convergents have
determinant one or minus one, so every fraction is a combination of them with whole coefficients, and the
target lies between them. Where the next convergent has too large a term, the search has the last one and
the greatest mediant that is within the bound. A fraction between these two is a combination with positive
coefficients, and so is beyond the bound itself: the mediant after the greatest one already is. All the
others lie on the far side of one of the two, and the closer one of these is what the search gives.

## Contents

- §1 determinants, §2 what the search has reached, §3 the last mediant, §4 the closest fraction, §5 held
  products, §6 ratios, §7 signed words
-/

namespace Resample

namespace Convergent

/-! ## §1 Determinants -/

/-- The determinant of two fractions; its sign tells which one is greater. -/
def det (c d : Convergent) : ℤ := c.num * d.den - d.num * c.den

/-- Two fractions with nothing simpler between them. -/
def Neighbours (c d : Convergent) : Prop := |det c d| = 1

theorem det_extend (older last : Convergent) (k : ℕ) : det last (extend older last k) = det last older := by
  simp only [det, extend, Nat.cast_add, Nat.cast_mul]
  ring

theorem det_swap (c d : Convergent) : det d c = -det c d := by
  simp only [det]
  ring

theorem Neighbours.extend {older last : Convergent} (h : last.Neighbours older) (k : ℕ) :
    last.Neighbours (extend older last k) := by
  rw [Neighbours, det_extend]
  exact h

theorem Neighbours.symm {c d : Convergent} (h : c.Neighbours d) : d.Neighbours c := by
  rw [Neighbours, det_swap, abs_neg]
  exact h

/-- Fractions that have a neighbour are in lowest terms. -/
theorem Neighbours.coprime {c d : Convergent} (h : c.Neighbours d) : c.num.Coprime c.den := by
  rw [← Nat.isCoprime_iff_coprime]
  rcases (abs_eq one_pos.le).1 h with hdet | hdet
  · exact ⟨d.den, -d.num, by rw [← hdet, det]; ring⟩
  · exact ⟨-d.den, d.num, by rw [← neg_eq_iff_eq_neg.2 hdet, det]; ring⟩

/-- Every fraction is a combination of two neighbours with whole coefficients. -/
theorem Neighbours.exists_combination {c d : Convergent} (h : c.Neighbours d) (p q : ℤ) :
    ∃ a b : ℤ, p = a * c.num + b * d.num ∧ q = a * c.den + b * d.den := by
  have hsquare : det c d * det c d = 1 := by rw [← abs_mul_abs_self, h, one_mul]
  refine ⟨det c d * (p * d.den - q * d.num), det c d * (c.num * q - c.den * p), ?_, ?_⟩
  · calc p = det c d * det c d * p := by rw [hsquare, one_mul]
      _ = _ := by simp only [det]; ring
  · calc q = det c d * det c d * q := by rw [hsquare, one_mul]
      _ = _ := by simp only [det]; ring

/-- How far a combination of two neighbours is from another one. -/
theorem Neighbours.abs_cross {c d : Convergent} (h : c.Neighbours d) (t e a b : ℤ) :
    |(t * c.num + e * d.num) * (a * c.den + b * d.den) - (t * c.den + e * d.den) * (a * c.num + b * d.num)|
      = |t * b - e * a| := by
  have hcross : (t * c.num + e * d.num) * (a * c.den + b * d.den) -
      (t * c.den + e * d.den) * (a * c.num + b * d.num) = det c d * (t * b - e * a) := by
    simp only [det]
    ring
  rw [hcross, abs_mul, h, one_mul]

/-- A combination with positive coefficients has terms that are at least the sums of the terms, so one within
the bound does not have two such coefficients where a sum is beyond. -/
theorem nonpos_or_nonpos_of_beyond {c d : Convergent} {bound : ℕ} {a b p q : ℤ}
    (hnum : p = a * c.num + b * d.num) (hden : q = a * c.den + b * d.den) (hp : p ≤ bound) (hq : q ≤ bound)
    (hbeyond : bound < c.num + d.num ∨ bound < c.den + d.den) : a ≤ 0 ∨ b ≤ 0 := by
  by_contra hpos
  obtain ⟨ha, hb⟩ := not_or.1 hpos
  have hgrow : ∀ m n : ℕ, (m : ℤ) + n ≤ a * m + b * n := fun m n =>
    add_le_add (le_mul_of_one_le_left (Int.natCast_nonneg m) (by omega))
      (le_mul_of_one_le_left (Int.natCast_nonneg n) (by omega))
  have hnums := hgrow c.num d.num
  have hdens := hgrow c.den d.den
  omega

/-! ## §2 What the search has reached -/

/-- The search for a fraction close to `N / D`, where `older` and `last` are convergents and `num / den` is
what is left of the target. -/
structure Reached (bound N D num den : ℕ) (older last : Convergent) : Prop where
  num_eq : N = num * last.num + den * older.num
  den_eq : D = num * last.den + den * older.den
  neighbours : last.Neighbours older
  older_within : older.Within bound
  last_within : last.Within bound

/-- The search begins with zero and infinity. -/
theorem Reached.start {bound : ℕ} (hbound : 0 < bound) (N D : ℕ) : Reached bound N D N D ⟨0, 1⟩ ⟨1, 0⟩ where
  num_eq := by simp
  den_eq := by simp
  neighbours := rfl
  older_within := ⟨Nat.zero_le _, hbound⟩
  last_within := ⟨hbound, Nat.zero_le _⟩

section Search

variable {bound N D num den : ℕ} {older last : Convergent}

/-- One step of the search. -/
theorem Reached.next (h : Reached bound N D num den older last)
    (hnext : (extend older last (num / den)).Within bound) :
    Reached bound N D den (num % den) last (extend older last (num / den)) where
  num_eq := by
    calc N = (den * (num / den) + num % den) * last.num + den * older.num := by
          rw [Nat.div_add_mod, ← h.num_eq]
      _ = _ := by simp only [extend]; ring
  den_eq := by
    calc D = (den * (num / den) + num % den) * last.den + den * older.den := by
          rw [Nat.div_add_mod, ← h.den_eq]
      _ = _ := by simp only [extend]; ring
  neighbours := (h.neighbours.extend _).symm
  older_within := h.last_within
  last_within := hnext

/-- The target as a combination of the last convergent and of a mediant. -/
theorem Reached.target_eq (h : Reached bound N D num den older last) (k : ℕ) :
    (N : ℤ) = (num - k * den) * last.num + den * (extend older last k).num ∧
      (D : ℤ) = (num - k * den) * last.den + den * (extend older last k).den := by
  rw [h.num_eq, h.den_eq]
  simp only [extend, Nat.cast_add, Nat.cast_mul]
  constructor <;> ring

/-- What is left of the target is no longer than the target. -/
theorem Reached.num_le (h : Reached bound N D num den older last) : num ≤ N ∨ num ≤ D := by
  rcases Nat.eq_zero_or_pos last.num with hzero | hpos
  · -- a convergent of which both terms are zero has no neighbour
    have hdenPos : 0 < last.den := by
      refine Nat.pos_of_ne_zero fun hzero' => ?_
      have hdet := h.neighbours
      rw [Neighbours, det, hzero, hzero'] at hdet
      simp at hdet
    have hle := Nat.le_mul_of_pos_right num hdenPos
    have hdenEq := h.den_eq
    omega
  · have hle := Nat.le_mul_of_pos_right num hpos
    have hnumEq := h.num_eq
    omega

/-- Up to the next convergent, combinations are no longer than the target but for the older convergent. -/
theorem Reached.combination_le (h : Reached bound N D num den older last) {k : ℕ} (hk : k ≤ num / den) :
    k * last.num ≤ N ∧ k * last.den ≤ D := by
  have hle : k ≤ num := hk.trans (Nat.div_le_self num den)
  have hnums := Nat.mul_le_mul_right last.num hle
  have hdens := Nat.mul_le_mul_right last.den hle
  have hnumEq := h.num_eq
  have hdenEq := h.den_eq
  omega

/-- What is compared to find the closer fraction is at most twice the denominator of the target. -/
theorem Reached.compared_le (h : Reached bound N D num den older last) (hden : 0 < den) {k : ℕ}
    (hk : k ≤ num / den) :
    num * last.den ≤ D ∧ den * (2 * k * last.den + older.den) ≤ 2 * D := by
  have hle : k * den ≤ num := (Nat.le_div_iff_mul_le hden).1 hk
  have hmul := Nat.mul_le_mul_right last.den hle
  have hsplit := h.den_eq
  refine ⟨by omega, ?_⟩
  calc den * (2 * k * last.den + older.den) = 2 * (k * den * last.den) + den * older.den := by ring
    _ ≤ 2 * (num * last.den) + 2 * (den * older.den) := by omega
    _ ≤ 2 * D := by omega

/-! ## §3 The last mediant -/

/-- Up to the limit, the mediants within the bound are those up to the greatest one. -/
theorem le_fitting_iff (holder : older.Within bound) {limit k : ℕ} (hk : k ≤ limit) :
    k ≤ fitting bound older last limit ↔ (extend older last k).Within bound := by
  -- a term of zero leaves room for any number of steps, any other one for what a quotient says
  have hterm : ∀ {term room : ℕ}, room ≤ bound → term ≠ 0 →
      (k ≤ (bound - room) / term ↔ k * term + room ≤ bound) := by
    intro term room hroom hterm
    rw [Nat.le_div_iff_mul_le (Nat.pos_of_ne_zero hterm)]
    omega
  have hnum : k ≤ (if last.num = 0 then limit else (bound - older.num) / last.num) ↔
      k * last.num + older.num ≤ bound := by
    split
    · next hzero =>
      rw [hzero, Nat.mul_zero, Nat.zero_add]
      exact iff_of_true hk holder.1
    · next hne => exact hterm holder.1 hne
  unfold fitting Within
  simp only [extend]
  rw [← hnum]
  split
  · next hzero =>
    rw [hzero, Nat.mul_zero, Nat.zero_add]
    exact (and_iff_left holder.2).symm
  · next hne =>
    rw [Nat.le_min, hterm holder.2 hne]

/-- The greatest mediant within the bound comes before the next convergent if that is beyond, and the mediant
after it is beyond too. -/
theorem fitting_spec (holder : older.Within bound) {digit : ℕ}
    (hbeyond : ¬ (extend older last digit).Within bound) :
    fitting bound older last digit < digit ∧
      (extend older last (fitting bound older last digit)).Within bound ∧
      ¬ (extend older last (fitting bound older last digit + 1)).Within bound := by
  have hlt : fitting bound older last digit < digit := by
    by_contra hge
    exact hbeyond ((le_fitting_iff holder (Nat.le_refl digit)).1 (Nat.le_of_not_lt hge))
  refine ⟨hlt, (le_fitting_iff holder hlt.le).1 (Nat.le_refl _), fun hnext => ?_⟩
  have hle := (le_fitting_iff holder (Nat.succ_le_of_lt hlt)).2 hnext
  omega

/-! ## §4 The closest fraction -/

/-- What the closest fraction within a bound is: no fraction with terms within the bound is closer to
`N / D`. Distances are compared over the product of the denominators. -/
structure IsClosest (bound N D : ℕ) (c : Convergent) : Prop where
  within : c.Within bound
  den_pos : 0 < c.den
  coprime : c.num.Coprime c.den
  closest : ∀ p q : ℤ, p ≤ bound → 0 < q → q ≤ bound →
    |(N : ℤ) * c.den - D * c.num| * q ≤ |(N : ℤ) * q - D * p| * c.den

/-- Of two neighbours with a target between them and nothing within the bound, one is the closest fraction.
Here `t` and `e` are the parts of the target: it is the closer to a fraction, the greater the part of
that. -/
theorem closest_of_neighbours {c d : Convergent} (h : c.Neighbours d) {t e : ℤ} (ht : 0 ≤ t) (he : 0 ≤ e)
    (hnum : (N : ℤ) = t * c.num + e * d.num) (hden : (D : ℤ) = t * c.den + e * d.den)
    (hc : c.Within bound) (hpos : 0 < c.den) (hcloser : e * d.den ≤ t * c.den)
    (hbeyond : bound < c.num + d.num ∨ bound < c.den + d.den) : IsClosest bound N D c where
  within := hc
  den_pos := hpos
  coprime := h.coprime
  closest := by
    intro p q hp hq hqle
    obtain ⟨a, b, rfl, rfl⟩ := h.exists_combination p q
    have hself : |(t * c.num + e * d.num) * c.den - (t * c.den + e * d.den) * c.num| = e := by
      have hcross := h.abs_cross t e 1 0
      rw [one_mul, one_mul, zero_mul, zero_mul, add_zero, add_zero, mul_zero, mul_one, zero_sub, abs_neg,
        abs_of_nonneg he] at hcross
      exact hcross
    rw [hnum, hden, hself, h.abs_cross]
    have hc : (0 : ℤ) ≤ c.den := Int.natCast_nonneg _
    have hd : (0 : ℤ) ≤ d.den := Int.natCast_nonneg _
    rcases nonpos_or_nonpos_of_beyond rfl rfl hp hqle hbeyond with ha | hb
    · -- the fraction is on the side of `d`, and so farther away than that
      have hleft : a * c.den ≤ 0 := mul_nonpos_of_nonpos_of_nonneg ha hc
      have hb : 0 ≤ b := by
        by_contra hneg
        have := mul_nonpos_of_nonpos_of_nonneg (not_le.1 hneg).le hd
        omega
      calc e * (a * c.den + b * d.den) = e * (a * c.den) + b * (e * d.den) := by ring
        _ ≤ -(e * (a * c.den)) + b * (t * c.den) := add_le_add
            (by have := mul_nonpos_of_nonneg_of_nonpos he hleft; omega)
            (mul_le_mul_of_nonneg_left hcloser hb)
        _ = (t * b - e * a) * c.den := by ring
        _ ≤ |t * b - e * a| * c.den := mul_le_mul_of_nonneg_right (le_abs_self _) hc
    · -- the fraction is on the other side of `c`
      calc e * (a * c.den + b * d.den) = e * a * c.den + e * (b * d.den) := by ring
        _ ≤ e * a * c.den + -(t * b * c.den) := add_le_add_right ((mul_nonpos_of_nonneg_of_nonpos he
            (mul_nonpos_of_nonpos_of_nonneg hb hd)).trans (neg_nonneg.2
              (mul_nonpos_of_nonpos_of_nonneg (mul_nonpos_of_nonneg_of_nonpos ht hb) hc))) _
        _ = -(t * b - e * a) * c.den := by ring
        _ ≤ |t * b - e * a| * c.den := mul_le_mul_of_nonneg_right (neg_le_abs _) hc

/-- A fraction that is infinite has no infinite neighbour. -/
theorem Neighbours.den_pos {c d : Convergent} (h : c.Neighbours d) (hzero : c.den = 0) : 0 < d.den := by
  refine Nat.pos_of_ne_zero fun hzero' => ?_
  rw [Neighbours, det, hzero, hzero'] at h
  simp at h

/-- Where the next convergent is beyond the bound, the last one or the greatest mediant is the closest
fraction. -/
theorem Reached.isClosest_last (h : Reached bound N D num den older last) (hden : 0 < den)
    (hbeyond : ¬ (extend older last (num / den)).Within bound) :
    IsClosest bound N D
      (let k := fitting bound older last (num / den)
       if num * last.den < den * (2 * k * last.den + older.den) then extend older last k else last) := by
  obtain ⟨hk, hwithin, hnext⟩ := fitting_spec h.older_within hbeyond
  simp only
  generalize fitting bound older last (num / den) = k at hk hwithin hnext
  obtain ⟨hnum, hdenom⟩ := h.target_eq k
  -- both parts of the target are there, as the mediant comes before the target
  have hpart : (0 : ℤ) ≤ num - k * den := by
    have hle : k * den ≤ num := (Nat.le_div_iff_mul_le hden).1 hk.le
    rw [← Nat.cast_mul]
    omega
  have hsum : bound < last.num + (extend older last k).num ∨ bound < last.den + (extend older last k).den := by
    simp only [Within, extend, Nat.add_one_mul, not_and_or, not_le] at hnext ⊢
    omega
  split
  · next htest =>
    have hpos : 0 < (extend older last k).den := by
      refine Nat.pos_of_ne_zero fun hzero => ?_
      obtain ⟨hmul, holder⟩ := Nat.add_eq_zero_iff.1 hzero
      rw [Nat.mul_assoc, hmul, holder] at htest
      exact Nat.not_lt_zero _ htest
    refine closest_of_neighbours (h.neighbours.extend k).symm (Int.natCast_nonneg den) hpart
      (hnum.trans (add_comm ..)) (hdenom.trans (add_comm ..)) hwithin hpos ?_ (by omega)
    have hcast : (num : ℤ) * last.den < den * (2 * k * last.den + older.den) := by exact_mod_cast htest
    simp only [extend, Nat.cast_add, Nat.cast_mul]
    linarith
  · next htest =>
    have hpos : 0 < last.den := by
      refine Nat.pos_of_ne_zero fun hzero => htest ?_
      rw [hzero, Nat.mul_zero, Nat.mul_zero, Nat.zero_add]
      exact Nat.mul_pos hden (h.neighbours.den_pos hzero)
    refine closest_of_neighbours (h.neighbours.extend k) hpart (Int.natCast_nonneg den) hnum hdenom
      h.last_within hpos ?_ hsum
    have hcast : (den : ℤ) * (2 * k * last.den + older.den) ≤ num * last.den := by
      exact_mod_cast Nat.le_of_not_lt htest
    simp only [extend, Nat.cast_add, Nat.cast_mul]
    linarith

/-- What is reached gives the target itself if nothing is left of it. -/
theorem Reached.isClosest_of_den_eq_zero (h : Reached bound N D num 0 older last) (hD : 0 < D) :
    IsClosest bound N D last := by
  have hnum := h.num_eq
  have hdenom := h.den_eq
  rw [Nat.zero_mul, Nat.add_zero] at hnum hdenom
  refine ⟨h.last_within, Nat.pos_of_mul_pos_left (hdenom ▸ hD), h.neighbours.coprime, fun p q _ hq _ => ?_⟩
  have hself : (N : ℤ) * last.den - D * last.num = 0 := by
    rw [hnum, hdenom]
    push_cast
    ring
  rw [hself, abs_zero, zero_mul]
  exact mul_nonneg (abs_nonneg _) (Int.natCast_nonneg _)

/-- From anything that it may have reached, the search finds the closest fraction. -/
theorem isClosest_closest (hD : 0 < D) (h : Reached bound N D num den older last) :
    IsClosest bound N D (closest id bound num den older last) := by
  induction den using Nat.strong_induction_on generalizing num older last with
  | _ den ih =>
    rw [closest]
    split
    · next hden =>
      subst hden
      exact h.isClosest_of_den_eq_zero hD
    · next hden =>
      simp only
      split
      · next hnext => exact ih _ (Nat.mod_lt _ (Nat.pos_of_ne_zero hden)) (h.next hnext)
      · next hbeyond => exact h.isClosest_last (Nat.pos_of_ne_zero hden) hbeyond

end Search

/-- A target in lower terms has the same closest fractions. -/
theorem IsClosest.scale {bound N D : ℕ} {c : Convergent} (h : IsClosest bound N D c) (g : ℕ) :
    IsClosest bound (g * N) (g * D) c where
  within := h.within
  den_pos := h.den_pos
  coprime := h.coprime
  closest := by
    intro p q hp hq hqle
    have hscale : ∀ x y : ℤ, |((g * N : ℕ) : ℤ) * x - (g * D : ℕ) * y| = g * |(N : ℤ) * x - D * y| := by
      intro x y
      rw [Nat.cast_mul, Nat.cast_mul, mul_assoc, mul_assoc, ← mul_sub, abs_mul, Nat.abs_cast]
    rw [hscale, hscale, mul_assoc, mul_assoc]
    exact mul_le_mul_of_nonneg_left (h.closest p q hp hq hqle) (Int.natCast_nonneg g)

/-- The fraction that stands for `N / D` is the closest one. -/
theorem isClosest_approximate {bound N D : ℕ} (hbound : 0 < bound) (hD : 0 < D) :
    IsClosest bound N D (approximate id bound N D) := by
  have hdivisor : 0 < N.gcd D := Nat.gcd_pos_of_pos_right _ hD
  have hpos : 0 < D / N.gcd D := Nat.div_pos (Nat.gcd_le_right _ hD) hdivisor
  suffices hreduced : IsClosest bound (N / N.gcd D) (D / N.gcd D) (approximate id bound N D) by
    have hscaled := hreduced.scale (N.gcd D)
    rwa [Nat.mul_div_cancel' (Nat.gcd_dvd_left N D), Nat.mul_div_cancel' (Nat.gcd_dvd_right N D)] at hscaled
  unfold approximate
  simp only
  split
  · next hwithin =>
    refine ⟨hwithin, hpos, Nat.coprime_div_gcd_div_gcd hdivisor, fun p q _ hq _ => ?_⟩
    have hself : ((N / N.gcd D : ℕ) : ℤ) * (D / N.gcd D : ℕ) - (D / N.gcd D : ℕ) * (N / N.gcd D : ℕ) = 0 := by
      ring
    simp only
    rw [hself, abs_zero, zero_mul]
    exact mul_nonneg (abs_nonneg _) (Int.natCast_nonneg _)
  · exact isClosest_closest hpos (Reached.start hbound _ _)

/-! ## §5 Held products -/

/-- Holding a number below the largest double word does not change whether it is below a smaller one. -/
theorem wide_add_le_iff {x y b : ℕ} (hb : b < 2 ^ 127) :
    Word.wide (Word.wide x + y) ≤ b ↔ x + y ≤ b := by
  unfold Word.wide Word.count
  omega

theorem wide_of_le {n : ℕ} (h : n ≤ 2 ^ 127) : Word.wide n = n := by
  unfold Word.wide Word.count
  omega

/-- The next convergent is within the bound if it is with held terms, and these are then its own. -/
theorem extendCapped_wide {bound : ℕ} (hbound : bound < 2 ^ 127) (older last : Convergent) (k : ℕ) :
    ((extendCapped Word.wide older last k).Within bound ↔ (extend older last k).Within bound) ∧
      ((extend older last k).Within bound → extendCapped Word.wide older last k = extend older last k) := by
  refine ⟨and_congr (wide_add_le_iff hbound) (wide_add_le_iff hbound), fun ⟨hnum, hden⟩ => ?_⟩
  simp only [extend] at hnum hden
  have hterm : ∀ {x y : ℕ}, x + y ≤ bound → Word.wide (Word.wide x + y) = x + y := fun {x y} hle => by
    rw [wide_of_le (show x ≤ 2 ^ 127 by omega), wide_of_le (by omega)]
  rw [extendCapped, hterm hnum, hterm hden, extend]

/-- Held products do not change what the search finds. -/
theorem closest_wide {bound N D num den : ℕ} {older last : Convergent} (hbound : bound < 2 ^ 127)
    (hD : D ≤ 2 ^ 126) (h : Reached bound N D num den older last) :
    closest Word.wide bound num den older last = closest id bound num den older last := by
  induction den using Nat.strong_induction_on generalizing num older last with
  | _ den ih =>
    rw [closest, closest]
    by_cases hden : den = 0
    · rw [dif_pos hden, dif_pos hden]
    · rw [dif_neg hden, dif_neg hden]
      obtain ⟨hwithin, hterms⟩ := extendCapped_wide hbound older last (num / den)
      simp only
      by_cases hnext : (extend older last (num / den)).Within bound
      · rw [if_pos (hwithin.2 hnext), hterms hnext,
          if_pos (show (extendCapped id older last _).Within _ from hnext)]
        exact ih _ (Nat.mod_lt _ (Nat.pos_of_ne_zero hden)) (h.next hnext)
      · rw [if_neg (mt hwithin.1 hnext), if_neg (show ¬ (extendCapped id older last _).Within _ from hnext)]
        obtain ⟨hleft, hright⟩ :=
          h.compared_le (Nat.pos_of_ne_zero hden) (fitting_spec h.older_within hnext).1.le
        rw [wide_of_le (hleft.trans (by omega)), wide_of_le (hright.trans (by omega))]
        rfl

/-- Held products do not change which fraction stands for `N / D`. -/
theorem approximate_wide {bound N D : ℕ} (hbound : 0 < bound) (hword : bound < 2 ^ 127) (hD : D ≤ 2 ^ 126) :
    approximate Word.wide bound N D = approximate id bound N D := by
  unfold approximate
  simp only
  split
  · rfl
  · exact closest_wide hword ((Nat.div_le_self ..).trans hD) (Reached.start hbound _ _)

end Convergent

/-! ## §6 Ratios -/

namespace Ratio

/-- What the closest ratio to `num / den` is, where neither is zero. -/
structure IsClosest (num den : ℤ) (r : Ratio) : Prop where
  den_pos : 0 < r.den
  num_le : |r.num| ≤ bound
  den_le : r.den ≤ bound
  coprime : IsCoprime r.num r.den
  /-- The sign is that of the target, unless the ratio is not known. -/
  sign_eq : r = unknown ∨ r.num.sign = num.sign * den.sign
  /-- A target that has terms within the bound when it is reduced is met. -/
  exact : |(num / den : ℚ).num| ≤ bound → (num / den : ℚ).den ≤ bound → (r.num / r.den : ℚ) = num / den
  /-- No ratio within the bound is closer to the target. -/
  closest : ∀ p q : ℤ, |p| ≤ bound → 1 ≤ q → q ≤ bound →
    |(num / den : ℚ) - r.num / r.den| ≤ |(num / den : ℚ) - p / q|

/-- The distance of fractions, over the product of the denominators. -/
theorem abs_div_sub_div {N D p q : ℤ} (hD : 0 < D) (hq : 0 < q) :
    |(N / D : ℚ) - p / q| = (|N * q - D * p| : ℤ) / (D * q : ℚ) := by
  have hD' : (0 : ℚ) < D := by exact_mod_cast hD
  have hq' : (0 : ℚ) < q := by exact_mod_cast hq
  rw [div_sub_div _ _ hD'.ne' hq'.ne', abs_div, abs_of_pos (mul_pos hD' hq')]
  push_cast
  rfl

/-- What is closest to `N / D` over the product of the denominators is closest to it. -/
theorem abs_sub_le_of_isClosest {N D : ℕ} {c : Convergent} (h : c.IsClosest bound N D) (hD : 0 < D) {p q : ℤ}
    (hp : p ≤ bound) (hq : 1 ≤ q) (hqle : q ≤ bound) :
    |((N : ℤ) / (D : ℤ) : ℚ) - (c.num : ℤ) / (c.den : ℤ)| ≤ |((N : ℤ) / (D : ℤ) : ℚ) - p / q| := by
  have hD' : (0 : ℤ) < D := by exact_mod_cast hD
  have hc : (0 : ℤ) < c.den := by exact_mod_cast h.den_pos
  have hle : |(N : ℤ) * c.den - D * c.num| * (D * q) ≤ |(N : ℤ) * q - D * p| * (D * c.den) := by
    rw [mul_left_comm, mul_left_comm _ (D : ℤ)]
    exact mul_le_mul_of_nonneg_left (h.closest p q hp hq hqle) hD'.le
  have hden : ∀ {d : ℤ}, 0 < d → (0 : ℚ) < ((D : ℤ) : ℚ) * d := fun hd => by exact_mod_cast mul_pos hD' hd
  rw [abs_div_sub_div hD' hc, abs_div_sub_div hD' (by omega), div_le_div_iff₀ (hden hc) (hden (by omega))]
  exact_mod_cast hle

/-- The same for a target and a fraction that share a sign. -/
theorem abs_sign_sub_le_of_isClosest {N D : ℕ} {c : Convergent} (h : c.IsClosest bound N D) (hD : 0 < D)
    {sign : ℤ} (hsign : sign = 1 ∨ sign = -1) {p q : ℤ} (hp : |p| ≤ bound) (hq : 1 ≤ q) (hqle : q ≤ bound) :
    |(sign * ((N : ℤ) / (D : ℤ)) : ℚ) - (sign * c.num : ℤ) / (c.den : ℤ)| ≤
      |(sign * ((N : ℤ) / (D : ℤ)) : ℚ) - p / q| := by
  rcases hsign with rfl | rfl
  · have hnear := abs_sub_le_of_isClosest h hD ((le_abs_self p).trans hp) hq hqle
    simpa only [Int.cast_one, one_mul] using hnear
  · -- each fraction has a partner of the other sign, at the same distance
    have hnear := abs_sub_le_of_isClosest h hD ((neg_le_abs p).trans hp) hq hqle
    have hmirror : ∀ x y z : ℚ, |-1 * x - y / z| = |x - -y / z| := fun x y z => by
      rw [← abs_neg]
      congr 1
      ring
    rw [Int.cast_mul, Int.cast_neg, Int.cast_one, hmirror, hmirror, neg_one_mul, neg_neg]
    simpa only [Int.cast_neg] using hnear

/-- The sign of a target of which no term is zero. -/
theorem sign_mul_sign_eq {num den : ℤ} (hnum : num ≠ 0) (hden : den ≠ 0) :
    num.sign * den.sign = 1 ∨ num.sign * den.sign = -1 := by
  rcases hnum.lt_or_gt with hn | hn <;> rcases hden.lt_or_gt with hd | hd
  all_goals simp [Int.sign_eq_neg_one_of_neg, Int.sign_eq_one_of_pos, hn, hd]

/-- A ratio is the search's fraction for the magnitudes, with the sign of the target. -/
theorem reduce_eq {num den : ℤ} (hnum : num ≠ 0) (hden : den ≠ 0) {c : Convergent}
    (hc : Convergent.approximate Word.wide bound num.natAbs den.natAbs = c) (hcoprime : c.num.Coprime c.den) :
    reduce num den = ⟨num.sign * den.sign * c.num, c.den⟩ := by
  unfold reduce
  rw [if_neg (by simp [hnum, hden]), hc]
  simp only
  split
  · next hzero =>
    -- zero in lowest terms is what stands for a ratio that is not known
    rw [hzero, Nat.coprime_zero_left] at hcoprime
    rw [hzero, hcoprime, Nat.cast_zero, mul_zero]
    rfl
  · rcases hnum.lt_or_gt with hn | hn <;> rcases hden.lt_or_gt with hd | hd
    all_goals simp [Int.sign_eq_neg_one_of_neg, Int.sign_eq_one_of_pos, hn, hd, hn.not_gt, hd.not_gt]

/-- The target with its sign apart. -/
theorem div_eq_sign_mul {num den : ℤ} :
    (num / den : ℚ) = (num.sign * den.sign : ℤ) * (((num.natAbs : ℕ) : ℤ) / ((den.natAbs : ℕ) : ℤ) : ℚ) := by
  have hsign : ∀ i : ℤ, (i : ℚ) = (i.sign : ℚ) * ((i.natAbs : ℕ) : ℤ) := fun i => by
    exact_mod_cast (Int.sign_mul_natAbs i).symm
  have hinv : ∀ i : ℤ, ((i.sign : ℚ))⁻¹ = i.sign := fun i => by
    rcases lt_trichotomy i 0 with hi | rfl | hi
    · rw [Int.sign_eq_neg_one_of_neg hi]; norm_num
    · norm_num
    · rw [Int.sign_eq_one_of_pos hi]; norm_num
  calc (num / den : ℚ)
      = (num.sign * ((num.natAbs : ℕ) : ℤ)) / (den.sign * ((den.natAbs : ℕ) : ℤ)) := by rw [← hsign, ← hsign]
    _ = num.sign * (den.sign : ℚ)⁻¹ * (((num.natAbs : ℕ) : ℤ) / ((den.natAbs : ℕ) : ℤ)) := by
        rw [mul_div_mul_comm, div_eq_mul_inv (num.sign : ℚ)]
    _ = _ := by rw [hinv]; push_cast; rfl

/-- The ratio that stands for a target is the closest one. -/
theorem isClosest_reduce {num den : ℤ} (hnum : num ≠ 0) (hden : den ≠ 0) (hword : den.natAbs ≤ 2 ^ 126) :
    (reduce num den).IsClosest num den := by
  have hD : 0 < den.natAbs := Int.natAbs_pos.2 hden
  have hc := Convergent.isClosest_approximate (N := num.natAbs) (show 0 < bound by decide) hD
  rw [← Convergent.approximate_wide (by decide) (by decide) hword] at hc
  generalize hfound : Convergent.approximate Word.wide bound num.natAbs den.natAbs = c at hc
  rw [reduce_eq hnum hden hfound hc.coprime]
  obtain ⟨hnumLe, hdenLe⟩ := hc.within
  have hcoprime : IsCoprime (c.num : ℤ) c.den := Nat.isCoprime_iff_coprime.2 hc.coprime
  have hunit := sign_mul_sign_eq hnum hden
  generalize hsign : num.sign * den.sign = sign at hunit ⊢
  have hcloser : ∀ p q : ℤ, |p| ≤ bound → 1 ≤ q → q ≤ bound →
      |(num / den : ℚ) - (sign * c.num : ℤ) / (c.den : ℤ)| ≤ |(num / den : ℚ) - p / q| := by
    intro p q hp hq hqle
    rw [div_eq_sign_mul, hsign]
    exact abs_sign_sub_le_of_isClosest hc hD hunit hp hq hqle
  exact {
    den_pos := Int.natCast_pos.2 hc.den_pos
    num_le := by
      have habs : |sign| = 1 := by rcases hunit with rfl | rfl <;> rfl
      rw [abs_mul, habs, one_mul, Nat.abs_cast]
      exact_mod_cast hnumLe
    den_le := Int.ofNat_le.2 hdenLe
    coprime := by
      rcases hunit with rfl | rfl
      · rwa [one_mul]
      · rwa [neg_one_mul, IsCoprime.neg_left_iff]
    sign_eq := by
      rcases Nat.eq_zero_or_pos c.num with hzero | hpos
      · left
        have hone := hc.coprime
        rw [hzero, Nat.coprime_zero_left] at hone
        rw [hzero, hone, Nat.cast_zero, mul_zero]
        rfl
      · right
        rw [hsign, Int.sign_mul, Int.sign_natCast_of_ne_zero hpos.ne', mul_one]
        rcases hunit with rfl | rfl <;> rfl
    exact := by
      intro hfits hfits'
      -- the reduced target is a candidate itself
      have hself := hcloser (num / den : ℚ).num (num / den : ℚ).den hfits
        (Int.natCast_pos.2 (num / den : ℚ).den_pos) (Int.ofNat_le.2 hfits')
      have hreduced : ((num / den : ℚ).num / ((num / den : ℚ).den : ℤ) : ℚ) = num / den := by
        rw [Int.cast_natCast, Rat.num_div_den]
      rw [hreduced, sub_self, abs_zero] at hself
      exact (sub_eq_zero.1 (abs_nonpos_iff.1 hself)).symm
    closest := hcloser }

/-! ## §7 Signed words -/

/-- Both terms are signed words. -/
def IsSigned (r : Ratio) : Prop :=
  (Word.least ≤ r.num ∧ r.num ≤ Word.greatest) ∧ (Word.least ≤ r.den ∧ r.den ≤ Word.greatest)

instance (r : Ratio) : Decidable r.IsSigned := inferInstanceAs (Decidable (_ ∧ _))

/-- The ratio that stands for `num / den`: it is not known if a term is zero, and the closest one otherwise,
and the search for it finds the same with held products and without. -/
structure Stands (num den : ℤ) (r : Ratio) : Prop where
  unknown : num = 0 ∨ den = 0 → r = unknown
  isClosest : num ≠ 0 → den ≠ 0 → r.IsClosest num den
  uncapped : Convergent.approximate Word.wide bound num.natAbs den.natAbs =
    Convergent.approximate id bound num.natAbs den.natAbs

/-- What is reduced stands for its target if the terms are no longer than products of signed words. -/
theorem stands_reduce {num den : ℤ} (hword : den.natAbs ≤ 2 ^ 126) : Stands num den (reduce num den) where
  unknown := fun hzero => if_pos hzero
  isClosest := fun hnum hden => isClosest_reduce hnum hden hword
  uncapped := Convergent.approximate_wide (by decide) (by decide) hword

/-- Ratios of signed words, and products of such ratios, are reduced to the closest ratios with bounded
terms. The search for them ends, as what is left of the target becomes smaller with every step. -/
theorem stands_of_isSigned {a b : Ratio} (ha : a.IsSigned) (hb : b.IsSigned) :
    Stands a.num a.den (reduce a.num a.den) ∧ Stands (a.num * b.num) (a.den * b.den) (a.mul b) := by
  have hmagnitude : ∀ {i : ℤ}, Word.least ≤ i → i ≤ Word.greatest → i.natAbs ≤ 2 ^ 63 := fun hleast hle => by
    unfold Word.least at hleast
    unfold Word.greatest at hle
    omega
  have hden := hmagnitude ha.2.1 ha.2.2
  have hproduct : (a.den * b.den).natAbs ≤ 2 ^ 63 * 2 ^ 63 := by
    rw [Int.natAbs_mul]
    exact Nat.mul_le_mul hden (hmagnitude hb.2.1 hb.2.2)
  exact ⟨stands_reduce (hden.trans (by decide)), stands_reduce (hproduct.trans (by decide))⟩

/-- The longest terms, of either sign. -/
theorem stands_of_isSigned_longest :
    Stands Word.least Word.greatest (reduce Word.least Word.greatest) ∧
      Stands (Word.least * Word.greatest) (Word.greatest * Word.least)
        (mul ⟨Word.least, Word.greatest⟩ ⟨Word.greatest, Word.least⟩) :=
  stands_of_isSigned (a := ⟨Word.least, Word.greatest⟩) (b := ⟨Word.greatest, Word.least⟩) (by decide)
    (by decide)

end Ratio

end Resample
