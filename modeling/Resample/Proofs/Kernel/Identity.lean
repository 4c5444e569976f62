import Resample.Proofs.Grid.Axis
import Resample.Proofs.Kernel.Outcome
import Resample.Proofs.Number.Exact

/-!
# Kernels that keep the size

Where an axis keeps its side, every tap falls on the center of its texel, and the read gives the texel.
That is true as long as the centers are values of the 32-bit format. The center of pixel `2 ^ 23` is not: it
is rounded to the edge of the texel, and the read there is the mean of two texels.

## Contents

- §1 the filter of equal sides, §2 taps on centers, §3 the first tap off center, §4 reads of single texels,
  §5 the picture of a launch
-/

namespace Resample

open Binary (Format)

/-! ## §1 The filter of equal sides -/

/-- Number of pixels of an axis whose centers are values of the 32-bit format. -/
def exactPixels : Nat := 2 ^ 23

/-- The filter with one texel for each pixel. -/
def AxisFilter.unit : AxisFilter := ⟨.finite false Format.single.one, .finite false 0⟩

/-- Equal sides have one texel for each pixel. -/
theorem AxisFilter.between_self {side : Nat} (hpos : 0 < side) (hside : 2 * side < 2 ^ 128) :
    AxisFilter.between side side = unit := by
  obtain ⟨u, hu, hvalue⟩ := Binary.exists_ofNat (F := Format.single) (by decide) hpos hside
  have hunits : 0 < side * Format.single.one := Nat.mul_pos hpos Format.single.one_pos
  -- whatever value the side is rounded to, it is divided by itself
  have hscale : (Binary.ofNat side / Binary.ofNat side : Single) = .finite false Format.single.one := by
    rw [hvalue]
    exact Binary.finite_div_self (by omega) (by decide) (by decide +kernel)
  have hoffset : displacement (sideWeight (.finite false Format.single.one)) = .finite false 0 := by
    decide +kernel
  unfold between
  simp only
  rw [hscale, hoffset]
  rfl

/-! ## §2 Taps on centers -/

/-- The tap that reads one texel only. -/
def Tap.texel (i : Nat) : Tap := ⟨i, 0, Nat.zero_le _⟩

/-- The tap at the center of a texel reads that texel only. -/
theorem Tap.ofCoordinate_center {i : Nat} (hi : i < exactPixels) :
    Tap.ofCoordinate (Binary.ofHalves (2 * i + 1)) = Tap.texel i := by
  have hi' : i < 2 ^ 23 := hi
  -- half a texel before its center a texel begins, at a whole number
  have hfirst : (Binary.ofHalves (2 * i + 1) - Binary.ofHalves 1 : Single) = Binary.ofHalves (2 * i) :=
    Binary.ofHalves_sub (by omega) (by omega)
  -- so nothing is left for the weight of the next texel
  have hdistance : (Binary.ofHalves (2 * i) - Binary.ofHalves (2 * i) : Single) = Binary.ofHalves 0 := by
    rw [Binary.ofHalves_sub (Nat.le_refl _) (by omega), Nat.sub_self]
  have hweight : ((Binary.ofHalves 0 : Single) * Binary.ofNat tapOne).roundWithin tapOne = 0 := by
    decide +kernel
  unfold ofCoordinate texel
  rw [Tap.mk.injEq, hfirst, Binary.floor_ofHalves hi', hdistance]
  exact ⟨Binary.toInt64_ofHalves hi', hweight⟩

/-- The filter with `k` texels for each pixel that reads the first and the last of them. -/
def AxisFilter.whole (k : Nat) : AxisFilter := ⟨Binary.ofNat k, Binary.ofHalves (k - 1)⟩

/-- The center of a pixel, where it is a value of the format. -/
theorem AxisFilter.center_whole {k i : Nat} (hk : 0 < k) (h : k * (i + 1) ≤ exactPixels) :
    (whole k).center i = Binary.ofHalves ((2 * i + 1) * k) := by
  have h' : k * (i + 1) ≤ 2 ^ 23 := h
  have hi : i + 1 ≤ k * (i + 1) := Nat.le_mul_of_pos_left _ hk
  have hk' : k ≤ k * (i + 1) := Nat.le_mul_of_pos_right _ (Nat.succ_pos i)
  have hcenter : (2 * i + 1) * k < 2 ^ 24 := by
    calc (2 * i + 1) * k < 2 * (i + 1) * k := Nat.mul_lt_mul_of_pos_right (by omega) hk
      _ = 2 * (k * (i + 1)) := by rw [Nat.mul_assoc, Nat.mul_comm (i + 1)]
      _ ≤ 2 ^ 24 := by omega
  unfold center whole
  rw [Binary.ofNat_eq_ofHalves (n := i) (by omega), Binary.ofHalves_add (by omega)]
  exact Binary.ofHalves_mul_ofNat (by omega) (by omega) hcenter

/-- The taps of a whole ratio are as far from the center of a pixel as the centers of its first and its last
texel are. -/
theorem AxisFilter.taps_whole {k i : Nat} (hk : 0 < k) (h : k * (i + 1) ≤ exactPixels) :
    (whole k).taps i = ⟨Tap.texel (k * i), Tap.texel (k * i + (k - 1))⟩ := by
  have h' : k * (i + 1) ≤ 2 ^ 23 := h
  have hsplit : k * (i + 1) = k * i + k := Nat.mul_succ k i
  have hcenter : (2 * i + 1) * k = 2 * (k * i) + k := by
    rw [Nat.add_mul, Nat.one_mul, Nat.mul_assoc, Nat.mul_comm i]
  -- center and displacement are halves of whole numbers, so their difference and sum are exact
  have hbefore : ((whole k).center i - (whole k).offset : Single) = Binary.ofHalves (2 * (k * i) + 1) := by
    rw [center_whole hk h, hcenter]
    unfold whole
    rw [Binary.ofHalves_sub (by omega) (by omega)]
    congr 1
    omega
  have hafter : ((whole k).center i + (whole k).offset : Single) =
      Binary.ofHalves (2 * (k * i + (k - 1)) + 1) := by
    rw [center_whole hk h, hcenter]
    unfold whole
    rw [Binary.ofHalves_add (by omega)]
    congr 1
    omega
  have hlast : k * i + (k - 1) < exactPixels := by omega
  unfold taps
  rw [hbefore, hafter, Tap.ofCoordinate_center (Nat.lt_of_le_of_lt (Nat.le_add_right _ _) hlast),
    Tap.ofCoordinate_center hlast]

/-- Both taps of a pixel read the texel of its number. -/
theorem AxisFilter.taps_unit {i : Nat} (hi : i < exactPixels) :
    unit.taps i = ⟨Tap.texel i, Tap.texel i⟩ := by
  have hunit : unit = whole 1 := by decide +kernel
  have htaps := taps_whole (i := i) Nat.one_pos (show 1 * (i + 1) ≤ exactPixels by omega)
  rwa [← hunit, Nat.one_mul] at htaps

/-! ## §3 The first tap off center -/

/-- The taps of the first pixel whose center is no value read that texel and the one before it. -/
theorem AxisFilter.taps_unit_exactPixels :
    unit.taps exactPixels = ⟨⟨exactPixels - 1, 128, by decide⟩, ⟨exactPixels - 1, 128, by decide⟩⟩ := by
  -- `2 ^ 23` and a half has 25 significant bits, and is rounded to the even `2 ^ 23`
  decide +kernel

/-! ## §4 Reads of single texels -/

namespace Texture

/-- Whether the axes of a texture are words that every mode can look up. -/
def ShortAxes (t : Texture) : Prop :=
  (2 * t.view.window.width : Nat) ≤ Word.greatest ∧ (2 * t.view.window.height : Nat) ≤ Word.greatest

/-- A read at a pixel of the view gives its sample. -/
theorem fetch_eq {t : Texture} (haxes : t.ShortAxes) {x y c : Nat} {v : Sample t.view.depth}
    (h : t.view.window.get? t.view.data x y c = some v) : t.fetch x y c = v.val := by
  have hin : t.view.window.Contains x y c := Window.contains_of_get?_eq_some h
  have hlongest : ∀ {len : Nat}, (2 * len : Nat) ≤ Word.greatest → len ≤ AddressMode.longest := by
    intro len hlen
    unfold Word.greatest at hlen
    unfold AddressMode.longest
    omega
  unfold fetch texel?
  rw [AddressMode.index?_of_lt _ hin.1 (hlongest haxes.1), AddressMode.index?_of_lt _ hin.2.1 (hlongest haxes.2)]
  simp [h]

/-- A read at the center of a texel gives the texel. -/
theorem fetchBetween_texel (t : Texture) (x y c : Nat) :
    t.fetchBetween (.texel x) (.texel y) c = t.fetch x y c := by
  unfold fetchBetween Tap.mix Tap.texel tapOne
  simp only
  omega

/-- A read in the middle between two texels of a row gives their mean, rounded upwards. -/
theorem fetchBetween_across (t : Texture) {x : Int} (hle : 128 ≤ tapOne) (y c : Nat) :
    t.fetchBetween ⟨x, 128, hle⟩ (.texel y) c = (t.fetch x y c + t.fetch (x + 1) y c + 1) / 2 := by
  unfold fetchBetween Tap.mix Tap.texel tapOne
  simp only
  omega

/-- A read in the middle between two texels of a column gives their mean, rounded upwards. -/
theorem fetchBetween_down (t : Texture) (x : Nat) {y : Int} (hle : 128 ≤ tapOne) (c : Nat) :
    t.fetchBetween (.texel x) ⟨y, 128, hle⟩ c = (t.fetch x y c + t.fetch x (y + 1) c + 1) / 2 := by
  unfold fetchBetween Tap.mix Tap.texel tapOne
  simp only
  omega

/-- Four reads at one place make four times the value. -/
theorem sum_same (t : Texture) (across down : Tap) (c : Nat) :
    t.sum ⟨across, across⟩ ⟨down, down⟩ c = 4 * t.fetchBetween across down c := by
  unfold sum
  simp only
  omega

end Texture

/-- A read of a rectangle at the origin gives the samples of the view, whatever the mode. -/
theorem View.fetch_corner {v : View} {width height : Nat} (hcovers : v.window.Covers width height)
    (hwidth : 2 * width ≤ 2 ^ 62) (hheight : 2 * height ≤ 2 ^ 62) {mode : AddressMode} {x y c : Nat}
    (hx : x < width) (hy : y < height) {s : Sample v.depth}
    (hs : v.window.get? v.data x y c = some s) :
    (⟨v.corner width height hcovers, mode⟩ : Texture).fetch x y c = s.val := by
  have hwords : (2 ^ 62 : Nat) ≤ Word.greatest := by decide
  have haxes : (⟨v.corner width height hcovers, mode⟩ : Texture).ShortAxes :=
    ⟨Int.le_trans (Int.ofNat_le.2 hwidth) hwords, Int.le_trans (Int.ofNat_le.2 hheight) hwords⟩
  have hsample : (v.corner width height hcovers).window.get? v.data x y c = some s :=
    (Window.get?_corner v.window hcovers v.data x y c).trans ((if_pos ⟨hx, hy⟩).trans hs)
  exact Texture.fetch_eq haxes hsample

/-! ## §5 The picture of a launch -/

/-- A variant that changes neither depth nor channels. -/
structure Variant.Keeps (v : Variant) : Prop where
  depth : v.dest = v.source
  dither : v.dither = false
  layout : v.layout = .combined

/-- Four reads of one value of the depth make that value. -/
theorem Variant.Keeps.finish_val {v : Variant} (hv : v.Keeps) {n : Nat} (hn : n ≤ v.dest.top)
    (x y : Nat) : (v.finish (4 * n) (v.bias x y) v.dest).val = n := by
  have hbits : v.dest.bits < v.source.bits + 2 := by
    rw [hv.depth]
    omega
  have hdiscarded : v.discarded = 2 := by
    unfold discarded
    rw [hv.depth]
    omega
  -- two bits are shifted out, with a half of the last place added before
  unfold finish bias
  rw [if_pos hbits, hv.dither, if_neg Bool.false_ne_true, hdiscarded, Sample.saturate_val,
    Nat.shiftRight_eq_div_pow]
  omega

/-- A request for all of a view, at its own size. -/
structure Request.KeepsSides (r : Request) (source : View) : Prop where
  sourceWidth : source.window.width = r.sourceWidth
  sourceHeight : source.window.height = r.sourceHeight
  destWidth : source.window.width = r.destWidth
  destHeight : source.window.height = r.destHeight
  width_le : 2 * source.window.width ≤ 2 ^ 62
  height_le : 2 * source.window.height ≤ 2 ^ 62

namespace Request.KeepsSides

variable {k : Kernel} {source : View} {r : Request}

/-- A view covers itself. -/
theorem covers_self (h : r.KeepsSides source) : source.window.Covers r.sourceWidth r.sourceHeight :=
  ⟨Nat.le_of_eq h.sourceWidth.symm, Nat.le_of_eq h.sourceHeight.symm⟩

/-- The picture is the finished sum of the reads at the unit taps, in each slot that the layout writes. -/
theorem picture_eq (h : r.KeepsSides source) {x y slot c : Nat}
    (hslot : k.variant.layout.source? k.variant.channels slot = some c)
    (hx : x < source.window.width) (hy : y < source.window.height) :
    k.picture source k.variant.dest r x y slot =
      some (k.variant.finish
        ((⟨source.corner _ _ h.covers_self, r.mode⟩ : Texture).sum (AxisFilter.unit.taps x)
          (AxisFilter.unit.taps y) c)
        (k.variant.bias x y) k.variant.dest) := by
  have hregion : x < r.destWidth ∧ y < r.destHeight := ⟨h.destWidth ▸ hx, h.destHeight ▸ hy⟩
  have hwidth : AxisFilter.between r.sourceWidth r.destWidth = .unit := by
    rw [← h.sourceWidth, ← h.destWidth]
    exact AxisFilter.between_self (by omega) (Nat.lt_of_le_of_lt h.width_le (by decide))
  have hheight : AxisFilter.between r.sourceHeight r.destHeight = .unit := by
    rw [← h.sourceHeight, ← h.destHeight]
    exact AxisFilter.between_self (by omega) (Nat.lt_of_le_of_lt h.height_le (by decide))
  unfold Kernel.picture
  rw [dif_pos h.covers_self, if_pos hregion]
  unfold Pass.picture Pass.valueAt Pass.sampleAt Request.pass
  simp only [hslot, Option.map_some, hwidth, hheight]

/-- The texture of the launch reads the samples of the view. -/
theorem fetch_corner (h : r.KeepsSides source) {x y c : Nat} {v : Sample source.depth}
    (hv : source.window.get? source.data x y c = some v) :
    (⟨source.corner _ _ h.covers_self, r.mode⟩ : Texture).fetch x y c = v.val := by
  have hin : source.window.Contains x y c := Window.contains_of_get?_eq_some hv
  apply View.fetch_corner h.covers_self (h.sourceWidth ▸ h.width_le) (h.sourceHeight ▸ h.height_le) _ _ hv
  · exact h.sourceWidth ▸ hin.1
  · exact h.sourceHeight ▸ hin.2.1

/-- Where the centers are values, a pixel is made of four times the sample in its place. -/
theorem picture_of_lt (h : r.KeepsSides source) {x y slot c : Nat}
    (hslot : k.variant.layout.source? k.variant.channels slot = some c) {v : Sample source.depth}
    (hv : source.window.get? source.data x y c = some v) (hx : x < exactPixels) (hy : y < exactPixels) :
    k.picture source k.variant.dest r x y slot =
      some (k.variant.finish (4 * v.val) (k.variant.bias x y) k.variant.dest) := by
  have hin : source.window.Contains x y c := Window.contains_of_get?_eq_some hv
  rw [h.picture_eq hslot hin.1 hin.2.1, AxisFilter.taps_unit hx, AxisFilter.taps_unit hy,
    Texture.sum_same, Texture.fetchBetween_texel, h.fetch_corner hv]

end Request.KeepsSides

namespace Kernel

variable {k : Kernel} {source : View} {r : Request}

/-- A launch from a view to the same size. -/
structure KeepsSize (k : Kernel) (source : View) (r : Request) : Prop where
  variant : k.variant.Keeps
  depth : source.depth = k.variant.source
  channels : source.window.channels = k.variant.channels
  sourceWidth : source.window.width = r.sourceWidth
  sourceHeight : source.window.height = r.sourceHeight
  destWidth : source.window.width = r.destWidth
  destHeight : source.window.height = r.destHeight
  width_le : 2 * source.window.width ≤ 2 ^ 62
  height_le : 2 * source.window.height ≤ 2 ^ 62

namespace KeepsSize

theorem keepsSides (h : k.KeepsSize source r) : r.KeepsSides source :=
  { sourceWidth := h.sourceWidth
    sourceHeight := h.sourceHeight
    destWidth := h.destWidth
    destHeight := h.destHeight
    width_le := h.width_le
    height_le := h.height_le }

/-- Helper: a channel of the view goes to the slot of its number. -/
private theorem slot_eq (h : k.KeepsSize source r) {c : Nat} (hc : c < source.window.channels) :
    k.variant.layout.source? k.variant.channels c = some c := by
  rw [h.variant.layout]
  exact if_pos (h.channels ▸ hc)

/-- Helper: a sample of the source is no greater than the samples of the destination can be. -/
private theorem val_le_top (h : k.KeepsSize source r) (v : Sample source.depth) :
    v.val ≤ k.variant.dest.top := by
  rw [h.variant.depth, ← h.depth]
  exact v.le_top

/-- Where the centers are values, the picture is what the view shows. -/
theorem picture_of_lt (h : k.KeepsSize source r) {x y c : Nat} {v : Sample source.depth}
    (hv : source.window.get? source.data x y c = some v) (hx : x < exactPixels) (hy : y < exactPixels) :
    (k.picture source k.variant.dest r x y c).map Fin.val = some v.val := by
  have hin : source.window.Contains x y c := Window.contains_of_get?_eq_some hv
  rw [h.keepsSides.picture_of_lt (h.slot_eq hin.2.2) hv hx hy, Option.map_some,
    h.variant.finish_val (h.val_le_top v)]

/-- At the first column without a center, the picture is the mean of two samples of the row. -/
theorem picture_column (h : k.KeepsSize source r) {y c : Nat} {v w : Sample source.depth}
    (hv : source.window.get? source.data (exactPixels - 1) y c = some v)
    (hw : source.window.get? source.data exactPixels y c = some w) (hy : y < exactPixels) :
    (k.picture source k.variant.dest r exactPixels y c).map Fin.val =
      some ((v.val + w.val + 1) / 2) := by
  have hin : source.window.Contains exactPixels y c := Window.contains_of_get?_eq_some hw
  have hleft : ((exactPixels : Nat) - 1 : Int) = (exactPixels - 1 : Nat) := by decide
  have hright : ((exactPixels : Nat) - 1 + 1 : Int) = (exactPixels : Nat) := by decide
  have hmean : (v.val + w.val + 1) / 2 ≤ k.variant.dest.top := by
    have := h.val_le_top v
    have := h.val_le_top w
    omega
  rw [h.keepsSides.picture_eq (h.slot_eq hin.2.2) hin.1 hin.2.1, AxisFilter.taps_unit_exactPixels,
    AxisFilter.taps_unit hy, Texture.sum_same, Texture.fetchBetween_across, hright, hleft,
    h.keepsSides.fetch_corner hv, h.keepsSides.fetch_corner hw, Option.map_some,
    h.variant.finish_val hmean]

/-- At the first row without a center, the picture is the mean of two samples of the column. -/
theorem picture_row (h : k.KeepsSize source r) {x c : Nat} {v w : Sample source.depth}
    (hv : source.window.get? source.data x (exactPixels - 1) c = some v)
    (hw : source.window.get? source.data x exactPixels c = some w) (hx : x < exactPixels) :
    (k.picture source k.variant.dest r x exactPixels c).map Fin.val =
      some ((v.val + w.val + 1) / 2) := by
  have hin : source.window.Contains x exactPixels c := Window.contains_of_get?_eq_some hw
  have habove : ((exactPixels : Nat) - 1 : Int) = (exactPixels - 1 : Nat) := by decide
  have hbelow : ((exactPixels : Nat) - 1 + 1 : Int) = (exactPixels : Nat) := by decide
  have hmean : (v.val + w.val + 1) / 2 ≤ k.variant.dest.top := by
    have := h.val_le_top v
    have := h.val_le_top w
    omega
  rw [h.keepsSides.picture_eq (h.slot_eq hin.2.2) hin.1 hin.2.1, AxisFilter.taps_unit_exactPixels,
    AxisFilter.taps_unit hx, Texture.sum_same, Texture.fetchBetween_down, hbelow, habove,
    h.keepsSides.fetch_corner hv, h.keepsSides.fetch_corner hw, Option.map_some,
    h.variant.finish_val hmean]

end KeepsSize

end Kernel

end Resample
