import Mathlib.Algebra.Order.Field.Rat
import Mathlib.Algebra.Order.Ring.Abs
import Mathlib.Tactic.FieldSimp
import Mathlib.Tactic.Linarith
import Mathlib.Tactic.Ring
import Resample.Kernel.Arithmetic
import Resample.Proofs.Grid.Axis
import Resample.Proofs.Kernel.Faults

/-!
# Reads between texels

A read between texels is the mean of four of them, weighted in 256ths along each axis and rounded once. So it lies
between the least and the greatest of the four, is their common value if they have one, and is no more than a half
away from the exact mean. All of it is computed in words, and no word is too short for it: the weights of an axis
add up to 256, the mean of four samples takes 32 bits before it is rounded, and the coordinates are far from the
longest integers.

## Contents

- §1 coordinates, §2 reads in words, §3 means, §4 rounded means
-/

namespace Resample

/-! ## §1 Coordinates -/

namespace Binary

/-- Whether the greatest whole number that is not above a value has a magnitude below a bound. The undefined value
has none, and is no matter. -/
def FloorBelow {F : Format} (bound : ℕ) (u : Binary F) : Prop :=
  u = .nan ∨ ∃ whole, u.floor.truncate? = some whole ∧ whole.natAbs < bound

/-- A value whose floor is below a bound is below it as well. -/
theorem FloorBelow.below {F : Format} {bound : ℕ} {u : Binary F} (h : u.FloorBelow bound) :
    u = .nan ∨ u.Below bound := by
  refine h.imp_right ?_
  rintro ⟨whole, hwhole, hlt⟩
  cases u with
  | nan => cases hwhole
  | infinite => cases hwhole
  | finite negative units =>
    change units < bound * F.one
    obtain rfl := Option.some.inj hwhole
    rw [Nat.mul_div_cancel _ F.one_pos] at hlt
    have hunits : units < (units / F.one + 1) * F.one := Nat.lt_mul_of_div_lt (Nat.lt_succ_self _) F.one_pos
    have hnext : units / F.one + 1 ≤ bound := by
      unfold signedUnits at hlt
      split at hlt <;> split at hlt <;> omega
    exact lt_of_lt_of_le hunits (Nat.mul_le_mul_right _ hnext)

end Binary

/-- The texels at a coordinate both have an index if its floor is far from the longest integers. -/
theorem Tap.check_of_floorBelow {u : Single} (h : u.FloorBelow (2 ^ 62)) : (Tap.ofCoordinate u).check = .ok () := by
  obtain rfl | hbelow := h.below
  · exact if_neg (by decide +kernel)
  · exact Tap.check_ofCoordinate hbelow

/-! ## §2 Reads in words -/

/-- The mean of two values is computed in words if 256 times a bound of them is one. -/
theorem Tap.guardedMix_eq_ok (t : Tap) {high first second : ℕ} (hfirst : first ≤ high) (hsecond : second ≤ high)
    (hhigh : tapOne * high ≤ Word.top) : t.guardedMix first second = .ok (t.mix first second) := by
  have hmix : t.mix first second ≤ Word.top := (t.mix_le hfirst hsecond).trans hhigh
  unfold mix at hmix
  unfold guardedMix
  rw [bind_of_eq_ok (Word.minus_eq_ok t.weight_le),
    bind_of_eq_ok (Word.held_eq_ok ((Nat.le_add_right _ _).trans hmix)),
    bind_of_eq_ok (Word.held_eq_ok ((Nat.le_add_left _ _).trans hmix))]
  exact Word.held_eq_ok hmix

namespace Texture

variable {t : Texture} {count : ℕ}

/-- The value between texels is computed in words, whatever the texels are. -/
theorem guardedBetween_eq_ok (t : Texture) (across down : Tap) (c : ℕ) :
    t.guardedBetween across down c = .ok (t.fetchBetween across down c) := by
  have hfetch : ∀ x y, t.fetch x y c ≤ 65535 := fun x y => (t.within_words c x y).2
  have hwords : tapOne * 65535 ≤ Word.top ∧ tapOne * (tapOne * 65535) ≤ Word.top ∧
      tapOne * (tapOne * 65535) + tapOne * tapOne / 2 ≤ Word.top := by decide
  have hmean := down.mix_le (t.mix_le_words across down.base c) (t.mix_le_words across (down.base + 1) c)
  have hvalue : t.fetchBetween across down c ≤ Word.topHalf :=
    ((t.within_words c).fetchBetween across down).2.trans (by decide)
  unfold guardedBetween
  rw [bind_of_eq_ok (across.guardedMix_eq_ok (hfetch _ _) (hfetch _ _) hwords.1),
    bind_of_eq_ok (across.guardedMix_eq_ok (hfetch _ _) (hfetch _ _) hwords.1),
    bind_of_eq_ok (down.guardedMix_eq_ok (t.mix_le_words ..) (t.mix_le_words ..) hwords.2.1),
    bind_of_eq_ok (Word.held_eq_ok ((Nat.add_le_add_right hmean _).trans hwords.2.2))]
  exact Word.held_eq_ok hvalue

/-- A read of fewer channels meets no fault that a read of more does not. -/
theorem Readable.checkFetch_eq_ok_of_le (h : t.Readable t.view.window.channels)
    (hcount : count ≤ t.view.window.channels) (x y : ℤ) : t.checkFetch count x y = .ok () := by
  rw [← h.checkFetch_eq_ok x y]
  unfold checkFetch
  simp only [Nat.not_lt.2 hcount, lt_irrefl]

/-- A read at an index pair gives the values there, and meets no fault. -/
theorem Readable.guardedFetch_eq_ok (h : t.Readable t.view.window.channels)
    (hcount : count ≤ t.view.window.channels) (x y : ℤ) :
    t.guardedFetch count x y = .ok ((List.range count).map (t.fetch x y)) := by
  unfold guardedFetch
  rw [bind_of_eq_ok (h.checkFetch_eq_ok_of_le hcount x y)]
  rfl

/-- A read at coordinates gives the rounded means, and meets no fault. -/
theorem Readable.guardedRead_eq_ok (h : t.Readable t.view.window.channels)
    (hcount : count ≤ t.view.window.channels) {u v : Single} (hu : u.FloorBelow (2 ^ 62))
    (hv : v.FloorBelow (2 ^ 62)) :
    t.guardedRead count u v =
      .ok ((List.range count).map (t.fetchBetween (Tap.ofCoordinate u) (Tap.ofCoordinate v))) := by
  have hvalues : t.guardedBetween (Tap.ofCoordinate u) (Tap.ofCoordinate v) =
      fun c => pure (t.fetchBetween (Tap.ofCoordinate u) (Tap.ofCoordinate v) c) :=
    funext fun c => t.guardedBetween_eq_ok _ _ c
  have hfetch := h.checkFetch_eq_ok_of_le hcount
  unfold guardedRead
  rw [bind_of_eq_ok (Tap.check_of_floorBelow hu), bind_of_eq_ok (Tap.check_of_floorBelow hv),
    bind_of_eq_ok (hfetch _ _), bind_of_eq_ok (hfetch _ _), bind_of_eq_ok (hfetch _ _), bind_of_eq_ok (hfetch _ _),
    hvalues, List.mapM_pure]
  rfl

end Texture

/-! ## §3 Means -/

/-- The exact mean of two values weighted by a tap. -/
def Tap.mean (t : Tap) (first second : ℚ) : ℚ :=
  (1 - t.weight / tapOne) * first + t.weight / tapOne * second

/-- The exact mean of the four corners weighted by a tap for each axis. -/
def Texture.mean (t : Texture) (across down : Tap) (c : ℕ) : ℚ :=
  down.mean (across.mean (t.fetch across.base down.base c) (t.fetch (across.base + 1) down.base c))
    (across.mean (t.fetch across.base (down.base + 1) c) (t.fetch (across.base + 1) (down.base + 1) c))

/-- The mean in 256ths is the exact mean. -/
theorem Tap.cast_mix (t : Tap) (first second : ℕ) : (t.mix first second : ℚ) = tapOne * t.mean first second := by
  have hone : (tapOne : ℚ) ≠ 0 := Nat.cast_ne_zero.2 (by decide)
  unfold mix mean
  push_cast [Nat.cast_sub t.weight_le]
  field_simp

/-! ## §4 Rounded means -/

namespace Texture

/-- What the mean of four texels is that is rounded to the nearest whole number. -/
structure IsRoundedMean (t : Texture) (across down : Tap) (c value : ℕ) : Prop where
  /-- The value is not below the least of the four. -/
  least : ∃ corner ∈ t.corners across down c, corner ≤ value
  /-- The value is not above the greatest of the four. -/
  greatest : ∃ corner ∈ t.corners across down c, value ≤ corner
  /-- Where the four agree, the value is what they are. -/
  common : ∀ n, (∀ corner ∈ t.corners across down c, corner = n) → value = n
  /-- The value is a sample of the depth. -/
  le_top : value ≤ t.view.depth.top
  /-- The value is no more than a half away from the exact mean. -/
  nearest : |(value : ℚ) - t.mean across down c| ≤ 1 / 2

/-- A value between texels is within a half of the exact mean. -/
theorem abs_fetchBetween_sub_mean_le (t : Texture) (across down : Tap) (c : ℕ) :
    |(t.fetchBetween across down c : ℚ) - t.mean across down c| ≤ 1 / 2 := by
  obtain ⟨sum, hsum⟩ : ∃ sum, sum = down.mix
      (across.mix (t.fetch across.base down.base c) (t.fetch (across.base + 1) down.base c))
      (across.mix (t.fetch across.base (down.base + 1) c) (t.fetch (across.base + 1) (down.base + 1) c)) :=
    ⟨_, rfl⟩
  have hvalue : t.fetchBetween across down c = (sum + 32768) / 65536 := by
    rw [hsum]
    rfl
  have hmean : (sum : ℚ) = 65536 * t.mean across down c := by
    simp only [hsum, mean, Tap.cast_mix, Tap.mean]
    unfold tapOne
    ring
  have hlow : 65536 * t.fetchBetween across down c ≤ sum + 32768 := by omega
  have hhigh : sum ≤ 65536 * t.fetchBetween across down c + 32768 := by omega
  have hlow : 65536 * (t.fetchBetween across down c : ℚ) ≤ sum + 32768 := by exact_mod_cast hlow
  have hhigh : (sum : ℚ) ≤ 65536 * t.fetchBetween across down c + 32768 := by exact_mod_cast hhigh
  rw [abs_le]
  constructor <;> linarith

/-- A value between texels is a rounded mean. -/
theorem isRoundedMean_fetchBetween (t : Texture) (across down : Tap) (c : ℕ) :
    t.IsRoundedMean across down c (t.fetchBetween across down c) where
  least := by
    by_contra! hnone
    exact absurd (le_fetchBetween hnone) (Nat.not_succ_le_self _)
  greatest := by
    by_contra! hnone
    -- else the value before would be a bound, too
    have hbefore := fetchBetween_le fun corner hcorner => Nat.le_sub_one_of_lt (hnone corner hcorner)
    have hfirst := hnone _ (List.mem_cons_self ..)
    omega
  common := fun n hall =>
    Nat.le_antisymm (fetchBetween_le fun corner hcorner => (hall corner hcorner).le)
      (le_fetchBetween fun corner hcorner => (hall corner hcorner).ge)
  le_top := ((t.within_top c).fetchBetween across down).2
  nearest := t.abs_fetchBetween_sub_mean_le across down c

variable {t : Texture} {count : ℕ}

/-- A read at an index pair gives the sample of a texel or, in border mode only, the border as far as the depth
reaches. -/
theorem fetch_eq_sample_or_border {c : ℕ} (hin : t.view.window.Contains 0 0 c) (x y : ℤ) :
    (∃ sample, t.texel? x y c = some sample ∧ t.fetch x y c = sample.val) ∨
      ∃ border, t.mode = .border border ∧ t.texel? x y c = none ∧
        t.fetch x y c = min border.val t.view.depth.top := by
  unfold fetch
  cases htexel : t.texel? x y c with
  | some sample => exact .inl ⟨sample, rfl, rfl⟩
  | none =>
    obtain ⟨border, hborder⟩ := exists_border_of_texel?_eq_none hin htexel
    refine .inr ⟨border, hborder, rfl, ?_⟩
    simp only [hborder, AddressMode.missing]

/-- Reads between texels are rounded means. From a view that has pixels, at any coordinates whose floors are far from
the longest integers and at undefined ones, a read of any of the channels ends without a fault. Its values are those
of the four texels that surround the coordinates, weighted in 256ths and rounded to the nearest whole number; a texel
that is not there counts as the border. -/
theorem exists_rounded_means (h : t.Readable t.view.window.channels) (hcount : count ≤ t.view.window.channels)
    {u v : Single} (hu : u.FloorBelow (2 ^ 62)) (hv : v.FloorBelow (2 ^ 62)) :
    ∃ values, t.guardedRead count u v = .ok values ∧ values.length = count ∧
      ∀ c < count,
        (∃ value, values[c]? = some value ∧ t.IsRoundedMean (Tap.ofCoordinate u) (Tap.ofCoordinate v) c value) ∧
        ∀ x y, (∃ sample, t.texel? x y c = some sample ∧ t.fetch x y c = sample.val) ∨
          ∃ border, t.mode = .border border ∧ t.texel? x y c = none ∧
            t.fetch x y c = min border.val t.view.depth.top := by
  refine ⟨_, h.guardedRead_eq_ok hcount hu hv, by rw [List.length_map, List.length_range], fun c hc => ⟨⟨_, ?_,
    t.isRoundedMean_fetchBetween _ _ c⟩, fetch_eq_sample_or_border ⟨h.width_pos, h.height_pos, by omega⟩⟩⟩
  rw [List.getElem?_map, List.getElem?_range hc, Option.map_some]

/-- Half a texel off the left edge of two by two pixels, and at an undefined height: the border, which is cut down to
255, and the first column have half a weight each, and their mean is rounded upwards. -/
theorem exists_rounded_means_border :
    ∃ (t : Texture) (u v : Single), t.mode = .border (Sample.saturate .sixteen 300) ∧ v = .nan ∧
      t.Readable t.view.window.channels ∧ u.FloorBelow (2 ^ 62) ∧ v.FloorBelow (2 ^ 62) ∧
      t.guardedRead 1 u v = .ok [133] ∧
      t.corners (Tap.ofCoordinate u) (Tap.ofCoordinate v) 0 = [255, 10, 255, 30] ∧
      t.IsRoundedMean (Tap.ofCoordinate u) (Tap.ofCoordinate v) 0 133 := by
  let t : Texture :=
    ⟨⟨.eight, 4, .ofFn fun i => Sample.saturate .eight (10 * (i.val + 1)),
      ⟨2, 2, 1, 2, 0, 4, by decide, by decide, by decide⟩⟩, .border (Sample.saturate .sixteen 300)⟩
  have hreadable : t.Readable t.view.window.channels := ⟨by decide, by decide, by decide, le_rfl, by decide⟩
  have hu : (.finite false 0 : Single).FloorBelow (2 ^ 62) := .inr ⟨0, by decide +kernel, by decide⟩
  have hv : (.nan : Single).FloorBelow (2 ^ 62) := .inl rfl
  have hread : t.guardedRead 1 (.finite false 0) .nan = .ok [133] := by decide +kernel
  have hcount : 1 ≤ t.view.window.channels := le_rfl
  obtain ⟨values, hvalues, -, hmeans⟩ := exists_rounded_means hreadable hcount hu hv
  obtain rfl : [133] = values := Except.ok.inj (hread.symm.trans hvalues)
  obtain ⟨⟨value, hvalue, hmean⟩, -⟩ := hmeans 0 Nat.one_pos
  obtain rfl : 133 = value := Option.some.inj hvalue
  exact ⟨t, _, _, rfl, rfl, hreadable, hu, hv, hread, by decide +kernel, hmean⟩

end Texture

end Resample
