import Resample.Proofs.Kernel.PixelMap

/-!
# Samples of another depth

Four reads of one sample make the sample in the depth of the destination. In a wider depth it is shifted up. In
a narrower one a bias is added, which is less than the value of the bits that are dropped: so a sample that was
shifted up before comes back as it was, whether it is rounded or dithered, and at any place of the matrix.

## Contents

- §1 sums in each depth, §2 four reads of one sample
-/

namespace Resample.Variant

/-! ## §1 Sums in each depth -/

section Depths

variable (channels : Nat) (dither : Bool) (layout : Layout) (sum bias : Nat)

/-- Where samples become wider, no bits of a sum are dropped, and it is shifted up from ten bits to sixteen. -/
theorem finish_widening :
    ((⟨channels, .eight, .sixteen, dither, layout⟩ : Variant).finish sum bias .sixteen).val =
      min (64 * sum) 65535 := by
  rw [Nat.mul_comm]
  exact congrArg (min · 65535) (Nat.shiftLeft_eq sum 6)

/-- Where they become narrower, ten of eighteen bits are dropped. -/
theorem finish_narrowing :
    ((⟨channels, .sixteen, .eight, dither, layout⟩ : Variant).finish sum bias .eight).val =
      min ((sum + bias) / 1024) 255 :=
  congrArg (min · 255) (Nat.shiftRight_eq_div_pow (sum + bias) 10)

/-- In one depth the two bits are dropped that a sum of four has more. -/
theorem finish_keeping (depth : Depth) :
    ((⟨channels, depth, depth, dither, layout⟩ : Variant).finish sum bias depth).val =
      min ((sum + bias) / 4) depth.top := by
  cases depth with
  | eight => exact congrArg (min · 255) (Nat.shiftRight_eq_div_pow (sum + bias) 2)
  | sixteen => exact congrArg (min · 65535) (Nat.shiftRight_eq_div_pow (sum + bias) 2)

end Depths

variable {v : Variant}

/-- What is added to the sums of all pixels, unless they are dithered. -/
theorem bias_of_not_dither (h : v.dither = false) (x y : Nat) : v.bias x y = 2 :=
  if_neg (Bool.eq_false_iff.1 h)

/-! ## §2 Four reads of one sample -/

/-- What a kernel that does not widen its samples adds is less than the value of the bits that it drops. -/
theorem bias_lt_two_pow (hbits : v.dest.bits ≤ v.source.bits) (x y : Nat) :
    v.bias x y < 2 ^ v.discarded := by
  have hrange : ∀ d : Depth, 8 ≤ d.bits ∧ d.bits ≤ 16 := by
    intro d
    cases d <;> decide
  have hsource := hrange v.source
  have hdest := hrange v.dest
  rw [bias_eq_matrixBias]
  unfold matrixBias discarded
  split
  · exact Dither.bias_lt_two_pow (show v.source.bits + 2 - v.dest.bits ≤ 16 by omega) _ _
  · -- half of what is dropped is no more than two
    calc 2 < 2 ^ 2 := by decide
      _ ≤ 2 ^ (v.source.bits + 2 - v.dest.bits) := Nat.pow_le_pow_right (by decide) (by omega)

/-- A sum with only zeros in the bits that are dropped is brought down without a rounding. -/
theorem finish_shiftLeft (hbits : v.dest.bits ≤ v.source.bits) {n : Nat} (hn : n ≤ v.dest.top) (x y : Nat) :
    (v.finish (n <<< v.discarded) (v.bias x y) v.dest).val = n := by
  have hbias := bias_lt_two_pow hbits x y
  have hdropped : (n <<< v.discarded + v.bias x y) >>> v.discarded = n := by
    rw [Nat.shiftRight_eq_div_pow, Nat.shiftLeft_eq, Nat.mul_comm, Nat.mul_add_div (Nat.two_pow_pos _),
      Nat.div_eq_of_lt hbias, Nat.add_zero]
  unfold finish
  rw [if_pos (by omega), hdropped, Sample.saturate_val, Nat.min_eq_left hn]

/-- Four reads of a sample that was shifted up from the depth of the destination come back to it. -/
theorem finish_narrowed (hbits : v.dest.bits ≤ v.source.bits) {n : Nat} (hn : n ≤ v.dest.top) (x y : Nat) :
    (v.finish (4 * n <<< (v.source.bits - v.dest.bits)) (v.bias x y) v.dest).val = n := by
  have hsum : 4 * n <<< (v.source.bits - v.dest.bits) = n <<< v.discarded := by
    unfold discarded
    rw [Nat.sub_add_comm hbits, Nat.shiftLeft_eq, Nat.shiftLeft_eq, Nat.pow_add, ← Nat.mul_assoc n,
      Nat.mul_comm 4]
  rw [hsum, finish_shiftLeft hbits hn]

/-- Four reads of a sample are brought to a depth that is not narrower by shifting the sample up. -/
theorem finish_widened (hbits : v.source.bits ≤ v.dest.bits) {n : Nat} (hn : n ≤ v.source.top) (x y : Nat) :
    (v.finish (4 * n) (v.bias x y) v.dest).val = n <<< (v.dest.bits - v.source.bits) := by
  obtain ⟨channels, source, dest, dither, layout⟩ := v
  cases source <;> cases dest
  case sixteen.eight => exact absurd hbits (show ¬ 16 ≤ 8 by decide)
  case eight.sixteen =>
    change n ≤ 255 at hn
    rw [finish_widening]
    change min (64 * (4 * n)) 65535 = n <<< 8
    rw [Nat.shiftLeft_eq]
    omega
  -- of one depth, nothing is shifted
  all_goals exact finish_narrowed (Nat.le_refl _) hn x y

end Resample.Variant
