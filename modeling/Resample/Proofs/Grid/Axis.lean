import Mathlib.Algebra.Group.Nat.Defs
import Resample.Proofs.Grid.Bounds

/-!
# Extended axes

An address mode extends an axis to all integers, and leaves the axis itself as it is. Beyond the ends a border
has no texels, a clamped axis has its last texel again and again, and a mirrored one has all its texels in turn,
forwards and backwards. So a mirrored axis reads alike on both sides of its first texel and repeats itself after
two lengths, and a step to the next index never leads farther than to the next texel.

The axis may be as long as half a signed word counts. Twice that is no signed word any more, but its signed
reading has the same multiples.

## Contents

- §1 the period of a mirrored axis, §2 reflections, §3 the modes one by one, §4 all modes
-/

namespace Resample

namespace AddressMode

variable {i : Int} {len : Nat}

/-! ## §1 The period of a mirrored axis -/

/-- The length of the longest axis that is extended. -/
def longest : Nat := 2 ^ 62

/-- An index within a period is that within two lengths of the axis. -/
theorem emod_mirrorPeriod (i : Int) (hlen : len ≤ longest) : i % mirrorPeriod len = i % (2 * len : Int) := by
  unfold longest at hlen
  have hperiod : mirrorPeriod len = 2 * len ∨ mirrorPeriod len = -(2 * len) := by
    unfold mirrorPeriod Word.signed Word.count
    rw [Int.bmod_def]
    omega
  rcases hperiod with hperiod | hperiod
  · rw [hperiod]
  · rw [hperiod, Int.emod_neg]

/-- The signed reading of a length is the length. -/
theorem signed_len (hlen : len ≤ longest) : Word.signed len = len :=
  Word.signed_of_le (by unfold longest at hlen; unfold Word.greatest; omega)

/-! ## §2 Reflections -/

/-- The texel that an index reads on an axis and its reflection, taking turns. -/
def reflected (len : Nat) (i : Int) : Nat :=
  let place := (i % (2 * len : Int)).toNat
  if place < len then place else 2 * len - 1 - place

section Reflections

variable (hpos : 0 < len)
include hpos

/-- Helper: the place of an index within two lengths. -/
private theorem place_bounds (i : Int) : 0 ≤ i % (2 * len : Int) ∧ i % (2 * len : Int) < 2 * len :=
  ⟨Int.emod_nonneg i (by omega), Int.emod_lt_of_pos i (by omega)⟩

theorem reflected_lt (i : Int) : reflected len i < len := by
  have hplace := place_bounds hpos i
  unfold reflected
  dsimp only
  split <;> omega

/-- Where the reflection before the first texel begins, the axis is read backwards. -/
theorem reflected_neg (i : Int) : reflected len (-1 - i) = reflected len i := by
  have hplace := place_bounds hpos i
  -- the two places add up to the last one of a period
  have hback : (-1 - i) % (2 * len : Int) = 2 * len - 1 - i % (2 * len : Int) := by
    have hsplit : -1 - i = (2 * len - 1 - i % (2 * len : Int)) + (2 * len : Int) * (-(i / (2 * len)) - 1) := by
      have hdiv := Int.mul_ediv_add_emod i (2 * len)
      rw [Int.mul_sub, Int.mul_neg]
      omega
    rw [hsplit, Int.add_mul_emod_self_left]
    exact Int.emod_eq_of_lt (by omega) (by omega)
  unfold reflected
  rw [hback]
  dsimp only
  split <;> split <;> omega

omit hpos in
/-- After two lengths the same texels are read again. -/
theorem reflected_add_period (i : Int) : reflected len (i + 2 * len) = reflected len i := by
  unfold reflected
  rw [Int.add_emod_right]

/-- The next index reads the same texel or one beside it. -/
theorem reflected_succ (i : Int) :
    reflected len (i + 1) ≤ reflected len i + 1 ∧ reflected len i ≤ reflected len (i + 1) + 1 := by
  have hplace := place_bounds hpos i
  -- the next place is one farther, or the first one again after the last one
  have hnext : (i + 1) % (2 * len : Int) = i % (2 * len : Int) + 1 ∨
      i % (2 * len : Int) + 1 = 2 * len ∧ (i + 1) % (2 * len : Int) = 0 := by
    rw [← Int.emod_add_emod]
    by_cases hlast : i % (2 * len : Int) + 1 = 2 * len
    · exact .inr ⟨hlast, by rw [hlast, Int.emod_self]⟩
    · exact .inl (Int.emod_eq_of_lt (by omega) (by omega))
  unfold reflected
  dsimp only
  rcases hnext with hnext | ⟨hlast, hnext⟩
  · rw [hnext]
    split <;> split <;> omega
  · rw [hnext]
    split <;> split <;> omega

end Reflections

/-! ## §3 The modes one by one -/

theorem index?_mirror (hpos : 0 < len) (hlen : len ≤ longest) : mirror.index? i len = some (reflected len i) := by
  unfold index? reflected
  rw [if_neg (by omega)]
  dsimp only
  rw [emod_mirrorPeriod i hlen]

/-- A border has no texels beyond the ends of the axis. -/
theorem index?_border (value : Sample .sixteen) (hlen : len ≤ longest) :
    (border value).index? i len = if 0 ≤ i ∧ i < len then some i.toNat else none := by
  unfold index?
  dsimp only
  rw [signed_len hlen]
  split <;> split <;> first | rfl | omega

theorem index?_clamp (hpos : 0 < len) : clamp.index? i len = some (min i.toNat (len - 1)) :=
  if_neg (by omega)

/-- Texel `j` of an axis of `len` texels is nearer to index `i` than any other one. -/
def IsNearest (i : Int) (len j : Nat) : Prop :=
  j < len ∧ ∀ k < len, k ≠ j → (i - j).natAbs < (i - k).natAbs

/-- A clamped index is led to the nearest texel. -/
theorem isNearest_clamp (hpos : 0 < len) : IsNearest i len (min i.toNat (len - 1)) :=
  ⟨by omega, fun k hk hne => by omega⟩

/-- An index of the axis reads its own texel, whatever the mode. -/
theorem index?_of_lt (mode : AddressMode) {i : Nat} (hi : i < len) (hlen : len ≤ longest) :
    mode.index? i len = some i := by
  have hpos : 0 < len := by omega
  cases mode with
  | clamp =>
    rw [index?_clamp hpos, Option.some.injEq]
    omega
  | mirror =>
    -- the first half of a period is the axis itself
    have hplace : (i : Int) % (2 * len : Int) = i := Int.emod_eq_of_lt (by omega) (by omega)
    rw [index?_mirror hpos hlen]
    unfold reflected
    dsimp only
    rw [hplace, Int.toNat_natCast, if_pos hi]
  | border value =>
    rw [index?_border value hlen, if_pos (by omega), Int.toNat_natCast]

end AddressMode

/-! ## §4 All modes -/

/-- A read of a texel of a view that has pixels finds none in border mode only. -/
theorem Texture.exists_border_of_texel?_eq_none {t : Texture} {x y : Int} {c : Nat}
    (hin : t.view.window.Contains 0 0 c) (hnone : t.texel? x y c = none) :
    ∃ value, t.mode = .border value := by
  obtain ⟨hwidth, hheight, hc⟩ := hin
  unfold texel? at hnone
  cases hi : t.mode.index? x t.view.window.width with
  | none => exact AddressMode.exists_border_of_index?_eq_none hi hwidth
  | some i =>
    cases hj : t.mode.index? y t.view.window.height with
    | none => exact AddressMode.exists_border_of_index?_eq_none hj hheight
    | some j =>
      -- both indices are led to a pixel of the view
      have hpixel : t.view.window.Contains i j c :=
        ⟨AddressMode.lt_of_index?_eq_some hi, AddressMode.lt_of_index?_eq_some hj, hc⟩
      simp [hi, hj, Window.get?_of_contains hpixel] at hnone

namespace AddressMode

/-- The address modes extend every axis to all integers. A mode that can be asked reads each index of the axis as it
is and leads every other one to the axis, if anywhere. A border has nothing exactly beyond the ends. A clamped index
is led to the nearest texel. A mirrored axis reads every index, alike on both sides of its first texel and again
after two lengths, and neighbours are led to neighbours or to one texel. So only in border mode a view that has
pixels lacks a texel. -/
theorem extends_axis :
    (∀ len : Nat, 1 ≤ len → len ≤ 2 ^ 62 → ∀ i : Int,
      (∀ mode : AddressMode, mode.lookup i len = .ok (mode.index? i len) ∧
        (0 ≤ i ∧ i < len → mode.index? i len = some i.toNat) ∧ ∀ j, mode.index? i len = some j → j < len) ∧
      (∀ value, (border value).index? i len = none ↔ ¬ (0 ≤ i ∧ i < len)) ∧
      (∃ j, clamp.index? i len = some j ∧ IsNearest i len j) ∧
      ∃ j, mirror.index? i len = some j ∧ j < len ∧ mirror.index? (-1 - i) len = some j ∧
        mirror.index? (i + 2 * len) len = some j ∧
        ∃ next, mirror.index? (i + 1) len = some next ∧ next ≤ j + 1 ∧ j ≤ next + 1) ∧
    ∀ (t : Texture) (x y : Int) (c : Nat), t.view.window.Contains 0 0 c → t.texel? x y c = none →
      ∃ value, t.mode = .border value := by
  refine ⟨fun len hpos hlen i => ⟨fun mode => ⟨?_, ?_, fun j => lt_of_index?_eq_some⟩, ?_, ?_, ?_⟩,
    fun t x y c => Texture.exists_border_of_texel?_eq_none⟩
  · have hwords : 2 * 2 ^ 62 ≤ Word.top := by decide
    exact if_neg fun h => by omega
  · rintro ⟨hfirst, hlast⟩
    obtain ⟨k, rfl⟩ := Int.eq_ofNat_of_zero_le hfirst
    exact index?_of_lt mode (by omega) hlen
  · intro value
    rw [index?_border value hlen]
    split <;> simp_all
  · exact ⟨_, index?_clamp hpos, isNearest_clamp hpos⟩
  · obtain ⟨hforth, hback⟩ := reflected_succ hpos i
    refine ⟨reflected len i, index?_mirror hpos hlen, reflected_lt hpos i, ?_, ?_,
      reflected len (i + 1), index?_mirror hpos hlen, hforth, hback⟩
    · rw [index?_mirror hpos hlen, reflected_neg hpos]
    · rw [index?_mirror hpos hlen, reflected_add_period]

/-- The least signed word on the longest axis: it is clamped to the first texel, and since it lies two lengths before
the axis begins, its mirror image is the first texel too. -/
theorem extends_axis_longest :
    clamp.lookup Word.least (2 ^ 62) = .ok (some 0) ∧ mirror.index? Word.least (2 ^ 62) = some 0 ∧
      mirror.index? (-1 - Word.least) (2 ^ 62) = some 0 ∧
      ∃ next, mirror.index? (Word.least + 1) (2 ^ 62) = some next ∧ next ≤ 1 := by
  obtain ⟨haxis, -⟩ := extends_axis
  obtain ⟨hmode, -, -, j, hj, -, hback, -, next, hnext, hforth, -⟩ :=
    haxis (2 ^ 62) (by decide) (by decide) Word.least
  have hfirst : mirror.index? Word.least (2 ^ 62) = some 0 := by decide +kernel
  obtain rfl : j = 0 := Option.some.inj (hj.symm.trans hfirst)
  exact ⟨(hmode clamp).1, hj, hback, next, hnext, hforth⟩

end AddressMode

end Resample
