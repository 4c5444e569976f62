import Mathlib.Algebra.BigOperators.Intervals
import Mathlib.Order.Interval.Finset.Nat
import Resample.Proofs.Kernel.Overshoot

/-!
# The mean of dithered samples

Each position of the dither matrix has a rank of its own: the bits of the rank are those of the row and those
in which row and column differ, so both are read back from it. A square as large as the matrix, wherever it
lies, therefore meets every rank once. A value between two samples is rounded up where the rank exceeds what
is missing to the upper one, which is so in the share of positions that the value is above the lower one. The
mean of the square is the value itself.

## Contents

- §1 the bits of a rank, §2 squares of the matrix, §3 rounding with ranks, §4 uniform channels
-/

namespace Resample

open Finset

namespace Dither

/-! ## §1 The bits of a rank -/

/-- What a bit of the coordinates adds to the rank: a bit of the row, and above it one that tells whether the
column has the same. -/
theorem testBit_rankBits (x y bit i : Nat) :
    (rankBits x y bit).testBit i =
      (decide (i = 2 * (order - 1 - bit) + 1) && (x ^^^ y).testBit bit ||
        decide (i = 2 * (order - 1 - bit)) && y.testBit bit) := by
  have hplace : ∀ n shift : Nat,
      ((n >>> bit % 2) <<< shift).testBit i = (decide (i = shift) && n.testBit bit) := by
    intro n shift
    rw [Nat.testBit_shiftLeft, show n >>> bit % 2 = n >>> bit % 2 ^ 1 from rfl, Nat.testBit_mod_two_pow,
      Nat.testBit_shiftRight]
    by_cases h : i = shift
    · subst h
      simp
    · simp only [h, decide_false, Bool.false_and, Bool.and_eq_false_iff, decide_eq_false_iff_not]
      omega
  unfold rankBits
  simp only
  rw [Nat.testBit_or, hplace, hplace]

/-- The rank has what any bit of the coordinates adds. -/
theorem testBit_rank (x y i : Nat) :
    (rank x y).testBit i = (List.range order).any fun bit => (rankBits x y bit).testBit i := by
  have hfold : ∀ (places : List Nat) (found : Nat),
      (places.foldl (fun found bit => found ||| rankBits x y bit) found).testBit i =
        (found.testBit i || places.any fun bit => (rankBits x y bit).testBit i) := by
    intro places
    induction places with
    | nil => simp
    | cons bit rest ih =>
      intro found
      rw [List.foldl_cons, ih, Nat.testBit_or, List.any_cons, Bool.or_assoc]
  unfold rank
  rw [hfold, Nat.zero_testBit, Bool.false_or]

/-- Two places of the rank belong to each bit of the coordinates: the other bits add nothing there. -/
theorem testBit_rank_of_place (x y : Nat) {bit i : Nat} (hbit : bit < order)
    (hplace : i / 2 = order - 1 - bit) : (rank x y).testBit i = (rankBits x y bit).testBit i := by
  rw [testBit_rank, Bool.eq_iff_iff, List.any_eq_true]
  constructor
  · rintro ⟨bit', hbit', hset⟩
    have hlt := List.mem_range.1 hbit'
    have hplace' := hset
    rw [testBit_rankBits] at hplace'
    simp only [Bool.or_eq_true, Bool.and_eq_true, decide_eq_true_eq] at hplace'
    rwa [show bit = bit' by omega]
  · exact fun hset => ⟨bit, List.mem_range.2 hbit, hset⟩

/-- The rank holds the bits of the row at even places. -/
theorem testBit_rank_even (x y : Nat) {bit : Nat} (hbit : bit < order) :
    (rank x y).testBit (2 * (order - 1 - bit)) = y.testBit bit := by
  rw [testBit_rank_of_place x y hbit (by omega), testBit_rankBits]
  simp

/-- The rank holds at odd places the bits in which row and column differ. -/
theorem testBit_rank_odd (x y : Nat) {bit : Nat} (hbit : bit < order) :
    (rank x y).testBit (2 * (order - 1 - bit) + 1) = (x ^^^ y).testBit bit := by
  rw [testBit_rank_of_place x y hbit (by omega), testBit_rankBits]
  simp

/-- Helper: numbers of `order` bits are equal if these bits are. -/
private theorem eq_of_testBit_lt {a b : Nat} (ha : a < side) (hb : b < side)
    (h : ∀ bit < order, a.testBit bit = b.testBit bit) : a = b := by
  refine Nat.eq_of_testBit_eq fun bit => ?_
  by_cases hbit : bit < order
  · exact h bit hbit
  · have hside : 2 ^ order ≤ 2 ^ bit := Nat.pow_le_pow_right (by decide) (Nat.le_of_not_lt hbit)
    have heq : side = 2 ^ order := rfl
    rw [Nat.testBit_lt_two_pow (by omega), Nat.testBit_lt_two_pow (by omega)]

/-- No two positions of the matrix have the same rank. -/
theorem rank_injective {x y x' y' : Nat} (hx : x < side) (hy : y < side) (hx' : x' < side)
    (hy' : y' < side) (h : rank x y = rank x' y') : x = x' ∧ y = y' := by
  -- the rows first, since the columns are told by where they differ from them
  have hrow : y = y' := eq_of_testBit_lt hy hy' fun bit hbit => by
    rw [← testBit_rank_even x y hbit, h, testBit_rank_even x' y' hbit]
  refine ⟨eq_of_testBit_lt hx hx' fun bit hbit => ?_, hrow⟩
  have hdiffer : (x ^^^ y).testBit bit = (x' ^^^ y').testBit bit := by
    rw [← testBit_rank_odd x y hbit, h, testBit_rank_odd x' y' hbit]
  rw [Nat.testBit_xor, Nat.testBit_xor, hrow] at hdiffer
  exact Bool.xor_left_inj.1 hdiffer

/-! ## §2 Squares of the matrix -/

/-- Positions of the matrix. -/
def places : Nat := side * side

/-- Helper: a numbering of a square, from zero to its number of places, has every number once. -/
private theorem sum_numbering {n : Nat} {number : Nat → Nat → Nat} (hlt : ∀ x y, number x y < n * n)
    (hinjective : ∀ {x y x' y'}, x < n → y < n → x' < n → y' < n → number x y = number x' y' →
      x = x' ∧ y = y') (f : Nat → Nat) :
    ∑ y ∈ range n, ∑ x ∈ range n, f (number x y) = ∑ i ∈ range (n * n), f i := by
  have hinjOn : Set.InjOn (fun p : Nat × Nat => number p.1 p.2) (range n ×ˢ range n : Finset _) := by
    rintro ⟨x, y⟩ hp ⟨x', y'⟩ hp' h
    simp only [coe_product, coe_range, Set.mem_prod, Set.mem_Iio] at hp hp'
    obtain ⟨rfl, rfl⟩ := hinjective hp.1 hp.2 hp'.1 hp'.2 h
    rfl
  -- there are as many numbers as places, and all of them are below the number of places
  have himage : (range n ×ˢ range n).image (fun p => number p.1 p.2) = range (n * n) := by
    apply eq_of_subset_of_card_le
    · exact image_subset_iff.2 fun p _ => mem_range.2 (hlt p.1 p.2)
    · rw [card_image_of_injOn hinjOn, card_product, card_range, card_range]
  rw [← himage, sum_image hinjOn, sum_product_right' (f := fun x y => f (number x y))]

/-- A sum over the matrix is a sum over the ranks. -/
theorem sum_rank (f : Nat → Nat) :
    ∑ y ∈ range side, ∑ x ∈ range side, f (rank x y) = ∑ n ∈ range places, f n :=
  sum_numbering rank_lt rank_injective f

/-- Helper: numbers in a row, as many as a period has, meet each remainder once. -/
private theorem sum_mod (first period : Nat) (f : Nat → Nat) :
    ∑ n ∈ Ico first (first + period), f (n % period) = ∑ n ∈ range period, f n := by
  rw [← Nat.image_Ico_mod first period, sum_image (Nat.mod_injOn_Ico first period)]

/-- A sum over the ranks of a square as large as the matrix is a sum over all ranks, wherever it lies. -/
theorem sum_square (x₀ y₀ : Nat) (f : Nat → Nat) :
    ∑ y ∈ Ico y₀ (y₀ + side), ∑ x ∈ Ico x₀ (x₀ + side), f (rank (x % side) (y % side)) =
      ∑ n ∈ range places, f n := by
  calc ∑ y ∈ Ico y₀ (y₀ + side), ∑ x ∈ Ico x₀ (x₀ + side), f (rank (x % side) (y % side))
      = ∑ y ∈ Ico y₀ (y₀ + side), ∑ x ∈ range side, f (rank x (y % side)) :=
        sum_congr rfl fun y _ => sum_mod x₀ side fun x => f (rank x (y % side))
    _ = ∑ y ∈ range side, ∑ x ∈ range side, f (rank x y) :=
        sum_mod y₀ side fun y => ∑ x ∈ range side, f (rank x y)
    _ = ∑ n ∈ range places, f n := sum_rank f

/-! ## §3 Rounding with ranks -/

/-- What is added to a value is the rank of the position, scaled to the bits that are dropped. -/
theorem bias_threshold {discarded : Nat} (h : discarded ≤ 2 * order) (x y : Nat) :
    bias (threshold x y) discarded = rank (x % side) (y % side) / 2 ^ (2 * order - discarded) := by
  have hrank : rank (x % side) (y % side) < 4096 := rank_lt _ _
  have hthreshold : (threshold x y).val = 16 * rank (x % side) (y % side) := by
    change rank (x % side) (y % side) <<< 4 % 65536 = _
    rw [Nat.shiftLeft_eq]
    omega
  have hshift : 2 ^ (bits - discarded) = 16 * 2 ^ (2 * order - discarded) := by
    change 2 ^ (16 - discarded) = 2 ^ 4 * 2 ^ (12 - discarded)
    change discarded ≤ 12 at h
    rw [← Nat.pow_add]
    congr 1
    omega
  unfold bias
  rw [hthreshold, Nat.shiftRight_eq_div_pow, hshift, ← Nat.div_div_eq_div_mul]
  congr 1
  omega

/-- If `a` is rounded with every remainder once, the results add up to `a`. -/
theorem sum_add_div (a : Nat) {n : Nat} (hn : 0 < n) : ∑ b ∈ range n, (a + b) / n = a := by
  induction a with
  | zero =>
    refine sum_eq_zero fun b hb => ?_
    rw [Nat.zero_add, Nat.div_eq_of_lt (mem_range.1 hb)]
  | succ a ih =>
    -- one more moves the remainders by one: the least of them is missing, and a whole one comes in
    have hfirst := sum_range_succ' (fun b => (a + b) / n) n
    have hlast := sum_range_succ (fun b => (a + b) / n) n
    have hwhole : (a + n) / n = a / n + 1 := Nat.add_div_right a hn
    have hshift : ∑ b ∈ range n, (a + 1 + b) / n = ∑ b ∈ range n, (a + (b + 1)) / n :=
      sum_congr rfl fun b _ => by rw [Nat.add_right_comm a 1 b, Nat.add_assoc]
    simp only [Nat.add_zero] at hfirst
    omega

/-- A value of 16 bits as a sample of 8 bits, rounded with a rank. -/
def narrow (value n : Nat) : Nat := min ((16 * value + n) / places) 255

/-- Up to 255 whole steps, a value is rounded to the step below it or the one above. -/
theorem narrow_of_le {value n : Nat} (hvalue : value ≤ 0xFF00) (hn : n < places) :
    narrow value n = (16 * value + n) / places ∧
      (narrow value n = value / 256 ∨ narrow value n = value / 256 + 1) := by
  have hplaces : places = 4096 := rfl
  unfold narrow
  rw [hplaces] at hn ⊢
  omega

/-- A value above 255 whole steps is rounded to the last step. -/
theorem narrow_of_lt {value : Nat} (hvalue : 0xFF00 < value) (n : Nat) : narrow value n = 255 := by
  have hplaces : places = 4096 := rfl
  unfold narrow
  rw [hplaces]
  omega

/-- The samples of a value over a square as large as the matrix have the value as their mean. -/
theorem sum_narrow {value : Nat} (hvalue : value ≤ 0xFF00) (x₀ y₀ : Nat) :
    ∑ y ∈ Ico y₀ (y₀ + side), ∑ x ∈ Ico x₀ (x₀ + side), narrow value (rank (x % side) (y % side)) =
      16 * value := by
  rw [sum_square x₀ y₀ (narrow value)]
  calc ∑ n ∈ range places, narrow value n = ∑ n ∈ range places, (16 * value + n) / places :=
        sum_congr rfl fun n hn => (narrow_of_le hvalue (mem_range.1 hn)).1
    _ = 16 * value := sum_add_div (16 * value) (by decide)

end Dither

/-! ## §4 Uniform channels -/

/-- A kernel that dithers brings 16 bits down to 8. -/
theorem Kernel.depths_of_dither {k : Kernel} (h : k.variant.dither = true) :
    k.variant.source = .sixteen ∧ k.variant.dest = .eight := by
  have hnormal := congrArg Variant.dither k.isNormal
  unfold Variant.normalized at hnormal
  simp only [h, Bool.true_and, decide_eq_true_eq] at hnormal
  generalize k.variant.source = source at hnormal ⊢
  generalize k.variant.dest = dest at hnormal ⊢
  revert hnormal
  cases source <;> cases dest <;> decide

/-- Four reads of a value are dithered to the value, rounded with the rank of the pixel. -/
theorem Variant.finish_dither {v : Variant} (hdither : v.dither = true) (hsource : v.source = .sixteen)
    (hdest : v.dest = .eight) (value x y : Nat) :
    (v.finish (4 * value) (v.bias x y) v.dest).val =
      Dither.narrow value (Dither.rank (x % Dither.side) (y % Dither.side)) := by
  obtain ⟨channels, source, dest, dither, layout⟩ := v
  obtain rfl : dither = true := hdither
  obtain rfl : source = .sixteen := hsource
  obtain rfl : dest = .eight := hdest
  rw [bias_eq_matrixBias]
  have hbias : Dither.bias (Dither.threshold (x % 64) (y % 64)) 10 =
      Dither.rank (x % 64 % 64) (y % 64 % 64) / 4 := Dither.bias_threshold (by decide) _ _
  change min ((4 * value + Dither.bias (Dither.threshold (x % 64) (y % 64)) 10) >>> 10) 255 =
    min ((16 * value + Dither.rank (x % 64) (y % 64)) / 4096) 255
  rw [hbias, Nat.mod_mod, Nat.mod_mod, Nat.shiftRight_eq_div_pow]
  omega

/-- Channel `c` has one value throughout the rectangle of the given sides at the origin. -/
def View.Uniform (v : View) (width height c value : Nat) : Prop :=
  ∀ x < width, ∀ y < height, (v.window.get? v.data x y c).map Fin.val = some value

theorem View.Uniform.between {v : View} {width height c value : Nat} (h : v.Uniform width height c value) :
    v.Between width height c value value := by
  intro x hx y hy sample hsample
  have hvalue := h x hx y hy
  rw [hsample, Option.map_some, Option.some.injEq] at hvalue
  exact ⟨Nat.le_of_eq hvalue.symm, Nat.le_of_eq hvalue⟩

/-- Every read of a uniform channel gives its value, unless there is a border. -/
theorem View.Uniform.within {v : View} {width height c value : Nat} (h : v.Uniform width height c value)
    (hcovers : v.window.Covers width height) (hwidth : 0 < width) (hheight : 0 < height) {mode : AddressMode}
    (hmode : mode = .clamp ∨ mode = .mirror) :
    (⟨v.corner width height hcovers, mode⟩ : Texture).Within c value value := by
  obtain ⟨sample, hsample, -⟩ := Option.map_eq_some_iff.1 (h 0 hwidth 0 hheight)
  refine h.between.within hcovers hwidth hheight (Window.contains_of_get?_eq_some hsample).2.2 ?_
  rintro border rfl
  obtain hclamp | hmirror := hmode
  · cases hclamp
  · cases hmirror

namespace Kernel

variable {k : Kernel} {source dest : View} {r : Request}

/-- A launch finishes a uniform channel alike at every scale: each pixel gets four times the value and the
bias of its place. -/
theorem Fits.get?_written_of_uniform (h : k.Fits source dest r) (hmode : r.mode = .clamp ∨ r.mode = .mirror)
    {slot c : Nat} (hslot : k.variant.layout.source? k.variant.channels slot = some c) {value : Nat}
    (huniform : source.Uniform r.sourceWidth r.sourceHeight c value) {x y : Nat} (hx : x < r.destWidth)
    (hy : y < r.destHeight) :
    dest.window.get? (k.written source dest r) x y slot =
      some (k.variant.finish (4 * value) (k.variant.bias x y) dest.depth) := by
  have hwithin := huniform.within h.covers_source h.sourceWidth_pos h.sourceHeight_pos hmode
  have hsum : ∀ across down,
      (⟨source.corner _ _ h.covers_source, r.mode⟩ : Texture).sum across down c = 4 * value :=
    fun across down => Nat.le_antisymm (hwithin.sum across down).2 (hwithin.sum across down).1
  rw [h.get?_written_of_source? hslot hx hy]
  unfold Pass.valueAt Pass.sampleAt Request.pass
  simp only [hsum]

/-- Dithering keeps the mean. Where a channel of 16 bits has one value throughout the region, and reads that
fall off the region are led back into it, a launch makes samples of the two steps around the value, and over
every square as large as the matrix their mean is the value itself. A value above the last step becomes the
last step everywhere. -/
theorem exists_dithered_mean (hdither : k.variant.dither = true) (hfits : k.Fits source dest r)
    (hmode : r.mode = .clamp ∨ r.mode = .mirror) {slot c : Nat}
    (hslot : k.variant.layout.source? k.variant.channels slot = some c) {value : Nat}
    (huniform : source.Uniform r.sourceWidth r.sourceHeight c value) :
    ∃ (result : _) (sample : Nat → Nat → Nat), k.launch source dest r = .ok result ∧
      (∀ x < r.destWidth, ∀ y < r.destHeight,
        (dest.window.get? result x y slot).map Fin.val = some (sample x y)) ∧
      (value ≤ 0xFF00 →
        (∀ x < r.destWidth, ∀ y < r.destHeight,
          sample x y = value / 256 ∨ sample x y = value / 256 + 1) ∧
        ∀ x₀ y₀, x₀ + 64 ≤ r.destWidth → y₀ + 64 ≤ r.destHeight →
          ∑ y ∈ Ico y₀ (y₀ + 64), ∑ x ∈ Ico x₀ (x₀ + 64), sample x y = 16 * value) ∧
      (0xFF00 < value → ∀ x < r.destWidth, ∀ y < r.destHeight, sample x y = 255) := by
  obtain ⟨hsource, hdest⟩ := depths_of_dither hdither
  refine ⟨k.written source dest r,
    fun x y => Dither.narrow value (Dither.rank (x % Dither.side) (y % Dither.side)), hfits.launch_eq_ok,
    fun x hx y hy => ?_, fun hvalue => ⟨fun x _ y _ => ?_, fun x₀ y₀ _ _ => ?_⟩, fun hvalue x _ y _ => ?_⟩
  · rw [hfits.get?_written_of_uniform hmode hslot huniform hx hy, Option.map_some, hfits.destDepth,
      Variant.finish_dither hdither hsource hdest]
  · exact (Dither.narrow_of_le hvalue (Dither.rank_lt _ _)).2
  · exact Dither.sum_narrow hvalue x₀ y₀
  · exact Dither.narrow_of_lt hvalue _

/-- The second channel of three by two pixels is 18 and a half everywhere. Drawn larger into a plane of its
own, it has that mean over the square that begins at column 5 and row 2. -/
theorem exists_dithered_mean_split :
    ∃ (k : Kernel) (source dest : View) (r : Request) (result : Vector (Sample dest.depth) dest.size)
        (sample : Nat → Nat → Nat),
      k.variant.dither = true ∧ k.variant.layout = .split .second ∧ k.Fits source dest r ∧ r.mode = .mirror ∧
      source.Uniform r.sourceWidth r.sourceHeight 1 0x1280 ∧ k.launch source dest r = .ok result ∧
      (∀ x < 70, ∀ y < 66, (dest.window.get? result x y 0).map Fin.val = some (sample x y)) ∧
      (∀ x < 70, ∀ y < 66, sample x y = 18 ∨ sample x y = 19) ∧
      ∑ y ∈ Ico 2 66, ∑ x ∈ Ico 5 69, sample x y = 16 * 0x1280 := by
  let k : Kernel := ⟨⟨2, .sixteen, .eight, true, .split .second⟩, rfl, rfl⟩
  let source : View :=
    ⟨.sixteen, 16, .ofFn fun i => Sample.saturate .sixteen (if i.val % 2 = 1 then 0x1280 else 1000 * i.val),
      ⟨3, 2, 2, 8, 0, 16, by decide, by decide, by decide⟩⟩
  let dest : View :=
    ⟨.eight, 5000, .replicate 5000 (Sample.saturate .eight 0),
      ⟨71, 66, 1, 75, 10, 4990, by decide, by decide, by decide⟩⟩
  let r : Request := ⟨3, 2, 70, 66, .mirror, true⟩
  have hfits : k.Fits source dest r :=
    ⟨rfl, rfl, rfl, rfl, fun _ => rfl, by decide, by decide, by decide, by decide⟩
  have huniform : source.Uniform r.sourceWidth r.sourceHeight 1 0x1280 := by
    unfold View.Uniform
    decide +kernel
  have hslot : k.variant.layout.source? k.variant.channels 0 = some 1 := rfl
  obtain ⟨result, sample, hlaunch, hresult, hmean, -⟩ :=
    exists_dithered_mean rfl hfits (.inr rfl) hslot huniform
  obtain ⟨hsteps, hsum⟩ := hmean (by decide)
  exact ⟨k, source, dest, r, result, sample, rfl, rfl, hfits, rfl, huniform, hlaunch, hresult, hsteps,
    hsum 5 2 (by decide) (by decide)⟩

end Kernel

end Resample
