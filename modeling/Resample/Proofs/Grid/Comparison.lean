import Mathlib.Tactic.Ring
import Resample.Kernel.Filter

/-!
# Reads of two textures

Two textures are compared read by read. A read between texels is a mean with weights that add up to one, so it
keeps what the values have in common: where no value of the first texture is above that of the second, no mean
is, and where all values differ by one number, all means do. The rounding does not spoil either, since it
follows the order and moves with whole numbers.

The weights of the two axes are multiplied, and nothing is rounded before both are. So a transposed texture
gives the same means at exchanged places.

## Contents

- §1 means, §2 textures read by read, §3 transposed textures
-/

namespace Resample

/-! ## §1 Means -/

/-- The second number is the first one raised by `n`. -/
def RaisedBy (n : Int) (a b : Nat) : Prop := (b : Int) = a + n

instance (n : Int) (a b : Nat) : Decidable (RaisedBy n a b) := inferInstanceAs (Decidable (_ = _))

namespace Tap

/-- A mean of values that are no greater is no greater. -/
theorem mix_le_mix (t : Tap) {a b a' b' : Nat} (ha : a ≤ a') (hb : b ≤ b') : t.mix a b ≤ t.mix a' b' :=
  Nat.add_le_add (Nat.mul_le_mul_left _ ha) (Nat.mul_le_mul_left _ hb)

/-- A mean of values that are raised is raised as they are, since the weights add up to one. -/
theorem mix_raisedBy (t : Tap) {n : Int} {a b a' b' : Nat} (ha : RaisedBy n a a') (hb : RaisedBy n b b') :
    RaisedBy (tapOne * n) (t.mix a b) (t.mix a' b') := by
  unfold RaisedBy at ha hb ⊢
  unfold mix
  push_cast [Nat.cast_sub t.weight_le]
  rw [ha, hb]
  ring

/-- The mean down the columns of means along the rows is the mean along the rows of means down the columns. -/
theorem mix_mix_comm (across down : Tap) (a b c d : Nat) :
    down.mix (across.mix a b) (across.mix c d) = across.mix (down.mix a c) (down.mix b d) := by
  unfold mix
  ring

end Tap

namespace Texture

variable {t t' : Texture} {c : Nat}

/-! ## §2 Textures read by read -/

/-- Every read of channel `c` of the first texture is in a relation to that of the second. -/
def Compares (R : Nat → Nat → Prop) (t t' : Texture) (c : Nat) : Prop :=
  ∀ x y : Int, R (t.fetch x y c) (t'.fetch x y c)

namespace Compares

/-- Reads between texels keep the order of the reads. -/
theorem fetchBetween_le (h : Compares (· ≤ ·) t t' c) (across down : Tap) :
    t.fetchBetween across down c ≤ t'.fetchBetween across down c := by
  have hrow : ∀ y, across.mix (t.fetch across.base y c) (t.fetch (across.base + 1) y c) ≤
      across.mix (t'.fetch across.base y c) (t'.fetch (across.base + 1) y c) :=
    fun y => across.mix_le_mix (h _ y) (h _ y)
  unfold fetchBetween
  apply Nat.div_le_div_right
  apply Nat.add_le_add_right
  exact down.mix_le_mix (hrow _) (hrow _)

/-- The sum of four reads between texels compares as the reads do. -/
theorem sum_le (h : Compares (· ≤ ·) t t' c) (across down : TapPair) :
    t.sum across down c ≤ t'.sum across down c := by
  unfold Texture.sum
  gcongr <;> exact h.fetchBetween_le _ _

variable {n : Int}

/-- Reads between texels are raised as the reads are: a whole number passes through the rounding. -/
theorem fetchBetween_raisedBy (h : Compares (RaisedBy n) t t' c) (across down : Tap) :
    RaisedBy n (t.fetchBetween across down c) (t'.fetchBetween across down c) := by
  have hrow : ∀ y, RaisedBy (tapOne * n)
      (across.mix (t.fetch across.base y c) (t.fetch (across.base + 1) y c))
      (across.mix (t'.fetch across.base y c) (t'.fetch (across.base + 1) y c)) :=
    fun y => across.mix_raisedBy (h _ y) (h _ y)
  have hmean := down.mix_raisedBy (hrow down.base) (hrow (down.base + 1))
  unfold RaisedBy at hmean ⊢
  unfold fetchBetween
  simp only
  -- the mean is counted in parts of a value, of which the raise is a whole number of values
  unfold tapOne at hmean ⊢
  omega

/-- Four reads are raised four times. -/
theorem sum_raisedBy (h : Compares (RaisedBy n) t t' c) (across down : TapPair) :
    RaisedBy (4 * n) (t.sum across down c) (t'.sum across down c) := by
  have h₁ := h.fetchBetween_raisedBy across.before down.before
  have h₂ := h.fetchBetween_raisedBy across.after down.before
  have h₃ := h.fetchBetween_raisedBy across.before down.after
  have h₄ := h.fetchBetween_raisedBy across.after down.after
  unfold RaisedBy at *
  unfold Texture.sum
  omega

end Compares

/-! ## §3 Transposed textures -/

/-- A read of the first texture is that of the second at the exchanged place. -/
def Transposes (t t' : Texture) (c : Nat) : Prop :=
  ∀ x y : Int, t.fetch x y c = t'.fetch y x c

namespace Transposes

/-- Reads between texels are, with the taps exchanged. -/
theorem fetchBetween_eq (h : t.Transposes t' c) (across down : Tap) :
    t.fetchBetween across down c = t'.fetchBetween down across c := by
  unfold fetchBetween
  simp only
  rw [Tap.mix_mix_comm]
  simp only [h _ _]

/-- The four reads of a pair of taps on each axis are the same four, in another order. -/
theorem sum_eq (h : t.Transposes t' c) (across down : TapPair) :
    t.sum across down c = t'.sum down across c := by
  unfold Texture.sum
  rw [h.fetchBetween_eq, h.fetchBetween_eq, h.fetchBetween_eq, h.fetchBetween_eq]
  ring

end Transposes

end Texture

end Resample
