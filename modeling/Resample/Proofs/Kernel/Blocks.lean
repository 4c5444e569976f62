import Mathlib.Algebra.BigOperators.Fin
import Mathlib.Algebra.Order.BigOperators.Group.Finset
import Resample.Proofs.Kernel.Dithering
import Resample.Proofs.Kernel.Identity

/-!
# Blocks of texels

A launch that keeps a side, or halves it, has as many texels for each pixel as a whole number tells. Every
coordinate on the way to the taps is then a half of a whole number of few bits, and none is rounded. The taps
fall on the centers of the first and the last texel of the pixel, so four texels are read for themselves, and
what is written is their sum in the depth of the destination.

## Contents

- §1 whole ratios, §2 sums of four samples, §3 the corners of a block, §4 the blocks of a launch
-/

namespace Resample

open Binary (Format)

/-! ## §1 Whole ratios -/

namespace AxisFilter

/-- A side of the source with one or two texels for each pixel of the destination, all with values as centers. -/
structure WholeRatio (k source dest : Nat) : Prop where
  factor : k = 1 ∨ k = 2
  source_eq : source = k * dest
  le_exactPixels : source ≤ exactPixels

/-- Such a side has the filter that reads the ends of each pixel. -/
theorem WholeRatio.between_eq {k source dest : Nat} (h : WholeRatio k source dest) (hdest : 0 < dest) :
    between source dest = whole k := by
  obtain ⟨hk, rfl, hle⟩ := h
  have hbits : k * dest < 2 ^ Format.single.precision := Nat.lt_of_le_of_lt hle (by decide)
  have hscale : (Binary.ofNat (k * dest) / Binary.ofNat dest : Single) = Binary.ofNat k :=
    Binary.ofNat_mul_div_ofNat (by omega) hdest hbits (by decide)
  -- one texel has no side weight; two have one of one half, and that displaces the taps by one half
  have hoffset : displacement (sideWeight (Binary.ofNat k)) = Binary.ofHalves (k - 1) := by
    obtain rfl | rfl := hk
    · decide +kernel
    · decide +kernel
  unfold between whole
  simp only [hscale, hoffset]

/-- The taps of a pixel fall on the first and the last of its texels. -/
theorem WholeRatio.taps_eq {k source dest i : Nat} (h : WholeRatio k source dest) (hi : i < dest) :
    (between source dest).taps i =
      ⟨Tap.texel (k * i + (0 : Fin 2) * (k - 1)), Tap.texel (k * i + (1 : Fin 2) * (k - 1))⟩ := by
  rw [h.between_eq (by omega)]
  obtain ⟨hk, rfl, hle⟩ := h
  have htexels : k * (i + 1) ≤ exactPixels := Nat.le_trans (Nat.mul_le_mul_left k hi) hle
  simpa using taps_whole (by omega) htexels

/-- The corners of a block are texels of the region. -/
theorem WholeRatio.texel_lt {k source dest i : Nat} (h : WholeRatio k source dest) (hi : i < dest) (j : Fin 2) :
    k * i + j * (k - 1) < source := by
  obtain ⟨hk, rfl, -⟩ := h
  have hnext : k * (i + 1) ≤ k * dest := Nat.mul_le_mul_left k hi
  have hlast : j * (k - 1) ≤ 1 * (k - 1) := Nat.mul_le_mul_right _ (by omega)
  rw [Nat.mul_succ] at hnext
  omega

end AxisFilter

/-- Reads at the centers of texels are added. -/
theorem Texture.sum_texel (t : Texture) (x x' y y' c : Nat) :
    t.sum ⟨.texel x, .texel x'⟩ ⟨.texel y, .texel y'⟩ c =
      t.fetch x y c + t.fetch x' y c + t.fetch x y' c + t.fetch x' y' c := by
  unfold sum
  simp only [fetchBetween_texel]

/-! ## §2 Sums of four samples -/

/-- A quarter of the sum of four samples of the source, in the depth of the destination, at pixel `(x, y)`. -/
def Variant.quarter (v : Variant) (sum x y : Nat) : Nat :=
  match v.source, v.dest with
  | .eight, .sixteen => 64 * sum
  | .sixteen, .eight =>
    if v.dither then min 255 ((sum + Dither.bias (Dither.threshold (x % 64) (y % 64)) 10) >>> 10)
    else (sum + 2) >>> 10
  | _, _ => (sum + 2) >>> 2

/-- A kernel that keeps the depth does not dither. -/
theorem Kernel.dither_eq_false_of_eq (k : Kernel) (h : k.variant.source = k.variant.dest) :
    k.variant.dither = false := by
  by_contra hdither
  obtain ⟨hsource, hdest⟩ := k.depths_of_dither (Bool.eq_true_of_not_eq_false hdither)
  rw [hsource, hdest] at h
  cases h

/-- A sum of four samples is finished to its quarter. No sum but a dithered one is cut at the greatest sample. -/
theorem Kernel.finish_eq_quarter (k : Kernel) {sum : Nat} (hsum : sum ≤ 4 * k.variant.source.top)
    (x y : Nat) :
    (k.variant.finish sum (k.variant.bias x y) k.variant.dest).val = k.variant.quarter sum x y := by
  have hplain := k.dither_eq_false_of_eq
  rw [Variant.bias_eq_matrixBias]
  generalize k.variant = v at hsum hplain ⊢
  obtain ⟨channels, source, dest, dither, layout⟩ := v
  unfold Variant.quarter
  cases source <;> cases dest
  case eight.sixteen =>
    change sum ≤ 4 * 255 at hsum
    rw [Variant.finish_widening]
    simp only
    omega
  case sixteen.eight =>
    change sum ≤ 4 * 65535 at hsum
    rw [Variant.finish_narrowing]
    simp only [Nat.shiftRight_eq_div_pow]
    cases dither with
    | true => exact Nat.min_comm _ _
    | false =>
      change min ((sum + 2) / 1024) 255 = (sum + 2) / 1024
      omega
  -- of one depth, nothing is dithered
  all_goals
    obtain rfl : dither = false := hplain rfl
    rw [Variant.finish_keeping]
    simp only [Nat.shiftRight_eq_div_pow]
    change min ((sum + 2) / 4) _ = (sum + 2) / 4
    simp only at hsum ⊢
    omega

/-- Of one depth, the quarter is the mean, rounded to the next sample. -/
theorem Variant.quarter_of_eq {v : Variant} (hdepth : v.source = v.dest) (sum x y : Nat) :
    v.quarter sum x y = (sum + 2) / 4 := by
  obtain ⟨channels, source, dest, dither, layout⟩ := v
  obtain rfl : source = dest := hdepth
  cases source with
  | eight => exact Nat.shiftRight_eq_div_pow _ 2
  | sixteen => exact Nat.shiftRight_eq_div_pow _ 2

/-! ## §3 The corners of a block -/

/-- The samples of a channel at the corners of the block of `kx` by `ky` texels that belongs to pixel `(x, y)`. -/
def View.Corners (v : View) (kx ky x y c : Nat) (p : Fin 2 → Fin 2 → Sample v.depth) : Prop :=
  ∀ i j : Fin 2, v.window.get? v.data (kx * x + i * (kx - 1)) (ky * y + j * (ky - 1)) c = some (p i j)

namespace View

variable {v : View} {kx ky sourceWidth sourceHeight destWidth destHeight x y c : Nat}

/-- The region has the corners of the blocks of all pixels. -/
theorem exists_corners (hcovers : v.window.Covers sourceWidth sourceHeight)
    (hacross : AxisFilter.WholeRatio kx sourceWidth destWidth)
    (hdown : AxisFilter.WholeRatio ky sourceHeight destHeight) (hx : x < destWidth) (hy : y < destHeight)
    (hc : c < v.window.channels) : ∃ p, v.Corners kx ky x y c p := by
  have hsample : ∀ i j : Fin 2, ∃ s,
      v.window.get? v.data (kx * x + i * (kx - 1)) (ky * y + j * (ky - 1)) c = some s := by
    intro i j
    have hin := hcovers.contains (hacross.texel_lt hx i) (hdown.texel_lt hy j) hc
    exact ⟨_, Window.get?_of_contains hin v.data⟩
  choose p hp using hsample
  exact ⟨p, hp⟩

/-- Four samples of a depth have a sum of two bits more. -/
theorem sum_corners_le (p : Fin 2 → Fin 2 → Sample v.depth) :
    ∑ i, ∑ j, (p i j).val ≤ 4 * v.depth.top := by
  calc ∑ i, ∑ j, (p i j).val ≤ ∑ _i : Fin 2, ∑ _j : Fin 2, v.depth.top := by
        apply Finset.sum_le_sum
        intro i _
        apply Finset.sum_le_sum
        intro j _
        exact (p i j).le_top
    _ = 4 * v.depth.top := by
        rw [Fin.sum_univ_two, Fin.sum_univ_two]
        omega

/-- The reads of a pixel are those of the corners of its block, in any mode. -/
theorem Corners.sum_eq {p : Fin 2 → Fin 2 → Sample v.depth} (h : v.Corners kx ky x y c p)
    (hcovers : v.window.Covers sourceWidth sourceHeight)
    (hacross : AxisFilter.WholeRatio kx sourceWidth destWidth)
    (hdown : AxisFilter.WholeRatio ky sourceHeight destHeight) (hx : x < destWidth) (hy : y < destHeight)
    (mode : AddressMode) :
    (⟨v.corner _ _ hcovers, mode⟩ : Texture).sum ((AxisFilter.between sourceWidth destWidth).taps x)
      ((AxisFilter.between sourceHeight destHeight).taps y) c = ∑ i, ∑ j, (p i j).val := by
  have hwords : ∀ side ≤ exactPixels, 2 * side ≤ 2 ^ 62 := by
    intro side hside
    exact Nat.le_trans (Nat.mul_le_mul_left 2 hside) (by decide)
  have hread : ∀ i j : Fin 2, (⟨v.corner _ _ hcovers, mode⟩ : Texture).fetch
      (kx * x + i * (kx - 1) : Nat) (ky * y + j * (ky - 1) : Nat) c = (p i j).val := by
    intro i j
    apply View.fetch_corner hcovers (hwords _ hacross.le_exactPixels) (hwords _ hdown.le_exactPixels) _ _ (h i j)
    · exact hacross.texel_lt hx i
    · exact hdown.texel_lt hy j
  rw [hacross.taps_eq hx, hdown.taps_eq hy, Texture.sum_texel, hread, hread, hread, hread]
  simp only [Fin.sum_univ_two]
  omega

end View

/-! ## §4 The blocks of a launch -/

namespace Kernel

variable {k : Kernel} {source dest : View} {r : Request}

/-- A launch that keeps or halves each side makes every pixel of its own texels: it writes a quarter of the sum of
the samples at the corners of the block, in each mode, depth and layout, as long as the centers of the texels are
values. In one depth that is the mean of the block, and the sample itself where both sides are kept. -/
theorem launch_blocks {result : Vector (Sample dest.depth) dest.size}
    (h : k.launch source dest r = .ok result) {kx ky : Nat} (hkx : kx = 1 ∨ kx = 2) (hky : ky = 1 ∨ ky = 2)
    (hwidth : r.sourceWidth = kx * r.destWidth) (hheight : r.sourceHeight = ky * r.destHeight)
    (hwidthLe : r.sourceWidth ≤ 2 ^ 23) (hheightLe : r.sourceHeight ≤ 2 ^ 23) :
    ∀ x < r.destWidth, ∀ y < r.destHeight, ∀ slot c,
      k.variant.layout.source? k.variant.channels slot = some c →
      ∃ p s, source.Corners kx ky x y c p ∧ dest.window.get? result x y slot = some s ∧
        s.val = k.variant.quarter (∑ i, ∑ j, (p i j).val) x y ∧
        (source.depth = dest.depth → s.val = ((∑ i, ∑ j, (p i j).val) + 2) / 4 ∧
          (kx = 1 → ky = 1 → s.val = (p 0 0).val)) := by
  intro x hx y hy slot c hslot
  obtain ⟨hfits, rfl⟩ := fits_of_launch h (by omega) (by omega)
  have hacross : AxisFilter.WholeRatio kx r.sourceWidth r.destWidth := ⟨hkx, hwidth, hwidthLe⟩
  have hdown : AxisFilter.WholeRatio ky r.sourceHeight r.destHeight := ⟨hky, hheight, hheightLe⟩
  obtain ⟨p, hp⟩ :=
    View.exists_corners hfits.covers_source hacross hdown hx hy (hfits.lt_channels hslot)
  obtain ⟨s, hs, hvalue⟩ := hfits.exists_get?_written hslot hx hy
  have hsum := hp.sum_eq hfits.covers_source hacross hdown hx hy r.mode
  have hle : ∑ i, ∑ j, (p i j).val ≤ 4 * k.variant.source.top :=
    (View.sum_corners_le p).trans_eq (congrArg (4 * Depth.top ·) hfits.sourceDepth)
  rw [hsum, k.finish_eq_quarter hle] at hvalue
  refine ⟨p, s, hp, hs, hvalue, fun hdepth => ?_⟩
  have hmean := k.variant.quarter_of_eq (hfits.sourceDepth ▸ hfits.destDepth ▸ hdepth)
    (∑ i, ∑ j, (p i j).val) x y
  refine ⟨hvalue.trans hmean, ?_⟩
  -- all corners of a single texel are that texel
  rintro rfl rfl
  have hsame : ∀ i j, p i j = p 0 0 := by
    intro i j
    exact Option.some.inj ((hp i j).symm.trans (hp 0 0))
  rw [hvalue, hmean]
  simp only [hsame, Fin.sum_univ_two]
  omega

/-- The second channel of four by three pixels, halved across with a border around it, and dithered. The first and
the last texel of a pixel count twice, and the border is never read. -/
theorem launch_blocks_border :
    ∃ (k : Kernel) (source dest : View) (r : Request) (border : Sample .sixteen)
        (result : Vector (Sample dest.depth) dest.size),
      k.launch source dest r = .ok result ∧ r.mode = .border border ∧
      ∀ x < 2, ∀ y < 3, ∃ p s, source.Corners 2 1 x y 1 p ∧ dest.window.get? result x y 0 = some s ∧
        s.val = min 255 (((∑ i, ∑ j, (p i j).val) +
          Dither.bias (Dither.threshold (x % 64) (y % 64)) 10) >>> 10) := by
  let k : Kernel := ⟨⟨2, .sixteen, .eight, true, .split .second⟩, rfl, rfl⟩
  let source : View :=
    ⟨.sixteen, 30, .ofFn fun i => Sample.saturate .sixteen (2100 * i.val),
      ⟨5, 3, 2, 10, 0, 30, by decide, by decide, by decide⟩⟩
  let dest : View :=
    ⟨.eight, 12, .replicate 12 (Sample.saturate .eight 9),
      ⟨3, 3, 1, 4, 1, 11, by decide, by decide, by decide⟩⟩
  let border : Sample .sixteen := Sample.saturate .sixteen 65535
  let r : Request := ⟨4, 3, 2, 3, .border border, true⟩
  have hfits : k.Fits source dest r :=
    ⟨rfl, rfl, rfl, rfl, fun _ => rfl, by decide, by decide, by decide, by decide⟩
  refine ⟨k, source, dest, r, border, _, hfits.launch_eq_ok, rfl, fun x hx y hy => ?_⟩
  obtain ⟨p, s, hp, hs, hvalue, -⟩ :=
    launch_blocks hfits.launch_eq_ok (.inr rfl) (.inl rfl) rfl rfl (by decide) (by decide) x hx y hy 0 1 rfl
  exact ⟨p, s, hp, hs, hvalue⟩

end Kernel

end Resample
