import Mathlib.Data.Nat.Bitwise
import Resample.Proofs.Grid.Packing
import Resample.Proofs.Kernel.Identity

/-!
# Thresholds

The texture of the dither matrix reads the threshold of each position. A threshold is a rank of twice as
many bits as a coordinate has, so it stays below the range of 16 bits by a margin: what is added to a value
before its low bits are dropped never reaches the value of the dropped bits.
-/

namespace Resample.Dither

/-- The bits of a position add nothing beyond the bits of the rank. -/
theorem rankBits_lt {bit : Nat} (hbit : bit < order) (x y : Nat) : rankBits x y bit < 2 ^ (2 * order) := by
  have horder : order = 6 := rfl
  have hlow : ∀ a shift : Nat, shift < 2 * order → (a % 2) <<< shift < 2 ^ (2 * order) := by
    intro a shift hshift
    rw [Nat.shiftLeft_eq]
    calc a % 2 * 2 ^ shift ≤ 1 * 2 ^ shift := Nat.mul_le_mul_right _ (by omega)
      _ < 2 ^ (2 * order) := by rw [Nat.one_mul]; exact Nat.pow_lt_pow_right (by decide) hshift
  unfold rankBits
  exact Nat.or_lt_two_pow (hlow _ _ (by omega)) (hlow _ _ (by omega))

/-- A rank has two bits for each bit of a coordinate. -/
theorem rank_lt (x y : Nat) : rank x y < 2 ^ (2 * order) := by
  have hfold : ∀ (places : List Nat) (found : Nat), (∀ bit ∈ places, bit < order) →
      found < 2 ^ (2 * order) →
      places.foldl (fun found bit => found ||| rankBits x y bit) found < 2 ^ (2 * order) := by
    intro places
    induction places with
    | nil => exact fun found _ hfound => hfound
    | cons bit rest ih =>
      intro found hplaces hfound
      exact ih _ (fun b hb => hplaces b (List.mem_cons_of_mem _ hb))
        (Nat.or_lt_two_pow hfound (rankBits_lt (hplaces bit (List.mem_cons_self ..)) x y))
  exact hfold _ 0 (fun bit hbit => List.mem_range.1 hbit) (Nat.two_pow_pos _)

/-- The greatest threshold is the greatest rank, scaled to 16 bits. -/
theorem threshold_le (x y : Nat) : (threshold x y).val ≤ 65520 := by
  have hrank := rank_lt (x % side) (y % side)
  have hbits : (2 ^ (2 * order) : Nat) = 4096 := by decide
  have hshift : bits - 2 * order = 4 := rfl
  unfold threshold Sample.truncate
  simp only [hshift, Nat.shiftLeft_eq]
  have hmod := Nat.mod_le (rank (x % side) (y % side) * 2 ^ 4) Depth.sixteen.levels
  omega

/-- What is added to a value is less than the value of the bits that are dropped. -/
theorem bias_lt_two_pow {discarded : Nat} (h : discarded ≤ bits) (x y : Nat) :
    bias (threshold x y) discarded < 2 ^ discarded := by
  have hthreshold := threshold_le x y
  have hsplit : 2 ^ discarded * 2 ^ (bits - discarded) = 2 ^ 16 := by
    rw [← Nat.pow_add, Nat.add_sub_cancel' h]
    rfl
  unfold bias
  rw [Nat.shiftRight_eq_div_pow, Nat.div_lt_iff_lt_mul (Nat.two_pow_pos _), hsplit]
  omega

/-- The texture of the matrix reads the threshold of a position. -/
theorem fetch_table {x y : Nat} (hx : x < side) (hy : y < side) : table.fetch x y 0 = threshold x y := by
  have hdata : ∀ (i : Nat) (hi : i < plane.stride * plane.height),
      plane.data[i] = threshold (i % side) (i / side) := fun i hi => Vector.getElem_ofFn hi
  have hsample : plane.window.get? plane.data x y 0 = some (threshold x y) :=
    Plane.get?_of_places rfl rfl hdata hx hy
  have haxes : table.ShortAxes := by
    constructor <;> decide
  exact Texture.fetch_eq haxes hsample

end Resample.Dither
