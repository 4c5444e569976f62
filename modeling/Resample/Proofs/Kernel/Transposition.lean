import Resample.Proofs.Grid.Comparison
import Resample.Proofs.Kernel.Channels
import Resample.Proofs.Kernel.Depths

/-!
# Transposition

The two axes of a launch are alike: each has its sides, its filter and its rule at the edges, and neither knows
the other. So a launch that reads a picture with rows and columns exchanged, and exchanges the sides that it was
asked for, draws the transposed picture. Only the dither matrix is not alike in both directions, so that is said
of samples that are rounded.

What the filter makes of a side is never looked at here: whatever its arithmetic gives, it gives for both axes.

## Contents

- §1 transposed views, §2 transposed requests, §3 launches
-/

namespace Resample

/-! ## §1 Transposed views -/

/-- The rectangle of the given sides at the origin of the first view is there in the second one with rows and
columns exchanged, or neither view is large enough. -/
structure View.TransposesOn (v v' : View) (width height : Nat) : Prop where
  depth : v.depth = v'.depth
  channels : v.window.channels = v'.window.channels
  covers_iff : v.window.Covers width height ↔ v'.window.Covers height width
  samples : ∀ x < width, ∀ y < height, ∀ c < v.window.channels,
    (v.window.get? v.data x y c).map Fin.val = (v'.window.get? v'.data y x c).map Fin.val

/-- Reads of such rectangles are at exchanged places, also where they fall off them. -/
theorem View.TransposesOn.corner {v v' : View} {width height : Nat} (h : v.TransposesOn v' width height)
    (hcovers : v.window.Covers width height) (hcovers' : v'.window.Covers height width) {c : Nat}
    (hc : c < v.window.channels) (mode : AddressMode) :
    Texture.Transposes ⟨v.corner width height hcovers, mode⟩ ⟨v'.corner height width hcovers', mode⟩ c := by
  intro x y
  -- which axis is asked first does not matter, since an index that either lacks reads the border
  have hmissing : mode.index? x width = none ∨ mode.index? y height = none →
      (⟨v.corner width height hcovers, mode⟩ : Texture).fetch x y c =
        (⟨v'.corner height width hcovers', mode⟩ : Texture).fetch y x c := by
    intro hnone
    rw [Texture.fetch_corner_of_none hcovers hnone, Texture.fetch_corner_of_none hcovers' hnone.symm, h.depth]
  cases hi : mode.index? x width with
  | none => exact hmissing (.inl hi)
  | some i =>
    cases hj : mode.index? y height with
    | none => exact hmissing (.inr hj)
    | some j =>
      have hx : i < width := AddressMode.lt_of_index?_eq_some hi
      have hy : j < height := AddressMode.lt_of_index?_eq_some hj
      have hsample := Window.get?_of_contains (hcovers.contains hx hy hc) v.data
      have hsample' := Window.get?_of_contains (hcovers'.contains hy hx (h.channels ▸ hc)) v'.data
      have hsame := h.samples i hx j hy c hc
      rw [hsample, hsample', Option.map_some, Option.map_some, Option.some.injEq] at hsame
      rw [Texture.fetch_corner_of_some hcovers hi hj hsample,
        Texture.fetch_corner_of_some hcovers' hj hi hsample', hsame]

/-! ## §2 Transposed requests -/

/-- The request with the sides of both axes exchanged. -/
def Request.transposed (r : Request) : Request :=
  { r with
    sourceWidth := r.sourceHeight
    sourceHeight := r.sourceWidth
    destWidth := r.destHeight
    destHeight := r.destWidth }

namespace Kernel

variable {k : Kernel} {source source' dest dest' : View} {r : Request}

/-- Where a launch is made, so is the transposed one. -/
theorem refusal?_transposed (h : k.refusal? source dest r = none)
    (hsource : source.TransposesOn source' r.sourceWidth r.sourceHeight) (hdepth : dest.depth = dest'.depth)
    (hchannels : dest.window.channels = dest'.window.channels)
    (hcovers : dest'.window.Covers r.destHeight r.destWidth) :
    k.refusal? source' dest' r.transposed = none := by
  obtain ⟨hsourceDepth, hdestDepth, hsourceChannels, hdestChannels, hregions⟩ := refusal?_eq_none_iff.1 h
  rw [refusal?_eq_none_iff, ← hsource.depth, ← hsource.channels, ← hdepth, ← hchannels]
  refine ⟨hsourceDepth, hdestDepth, hsourceChannels, hdestChannels, fun hsome => ?_⟩
  obtain ⟨hempty, htable, hread, -⟩ := hregions fun hnothing => hsome hnothing.symm
  exact ⟨fun hempty' => hempty hempty'.symm, htable, hsource.covers_iff.1 hread, hcovers⟩

/-! ## §3 Launches -/

/-- Scaling commutes with transposition. Where a launch that does not dither is made, so is the launch on the
transposed source with all sides exchanged, and in each slot that is written it has at column `y` of row `x` the
sample that the first one has at column `x` of row `y`. -/
theorem launch_transposed {result : Vector (Sample dest.depth) dest.size}
    (h : k.launch source dest r = .ok result) (hdither : k.variant.dither = false)
    (hsource : source.TransposesOn source' r.sourceWidth r.sourceHeight) (hdepth : dest.depth = dest'.depth)
    (hchannels : dest.window.channels = dest'.window.channels)
    (hcovers : dest'.window.Covers r.destHeight r.destWidth) :
    ∃ result', k.launch source' dest' r.transposed = .ok result' ∧
      ∀ x < r.destWidth, ∀ y < r.destHeight, ∀ slot c,
        k.variant.layout.source? k.variant.channels slot = some c →
        ∃ s s', dest.window.get? result x y slot = some s ∧ dest'.window.get? result' y x slot = some s' ∧
          s.val = s'.val := by
  have hrefusal := refusal?_transposed (launch_eq_ok_iff.1 h).1 hsource hdepth hchannels hcovers
  have hlaunch : k.launch source' dest' r.transposed = .ok (k.written source' dest' r.transposed) :=
    launch_eq_ok_iff.2 ⟨hrefusal, rfl⟩
  refine ⟨_, hlaunch, fun x hx y hy slot c hslot => ?_⟩
  obtain ⟨hfits, rfl⟩ := fits_of_launch h (by omega) (by omega)
  obtain ⟨hfits', -⟩ := fits_of_launch hlaunch (Nat.lt_of_le_of_lt (Nat.zero_le y) hy)
    (Nat.lt_of_le_of_lt (Nat.zero_le x) hx)
  obtain ⟨s, hs, hvalue⟩ := hfits.exists_get?_written hslot hx hy
  obtain ⟨s', hs', hvalue'⟩ := hfits'.exists_get?_written hslot (x := y) (y := x) hy hx
  refine ⟨s, s', hs, hs', ?_⟩
  have hreads := hsource.corner hfits.covers_source hfits'.covers_source (hfits.lt_channels hslot) r.mode
  -- without dithering the same is added to the sums of all pixels
  rw [hvalue, hvalue', hreads.sum_eq, Variant.bias_of_not_dither hdither, Variant.bias_of_not_dither hdither]
  rfl

/-- Two channels of three by two pixels, in rows with padding, and the same pixels in rows of two. Drawn larger
in one direction and smaller in the other, with a border around them, and narrowed to 8 bits. -/
theorem launch_transposed_border :
    ∃ (k : Kernel) (source source' dest dest' : View) (r : Request) (border : Sample .sixteen)
        (result : Vector (Sample dest.depth) dest.size) (result' : Vector (Sample dest'.depth) dest'.size),
      k.variant.dither = false ∧ k.variant.source ≠ k.variant.dest ∧ r.mode = .border border ∧
      source.TransposesOn source' 3 2 ∧ r.sourceWidth = 3 ∧ r.sourceHeight = 2 ∧
      k.launch source dest r = .ok result ∧ k.launch source' dest' r.transposed = .ok result' ∧
      ∀ x < 7, ∀ y < 1, ∀ c < 2, ∃ s s', dest.window.get? result x y c = some s ∧
        dest'.window.get? result' y x c = some s' ∧ s.val = s'.val := by
  let k : Kernel := ⟨⟨2, .sixteen, .eight, false, .combined⟩, by decide, rfl⟩
  let source : View :=
    ⟨.sixteen, 16, .ofFn fun i => Sample.saturate .sixteen (4201 * i.val),
      ⟨3, 2, 2, 8, 0, 16, by decide, by decide, by decide⟩⟩
  -- the second row begins eight samples after the first, and pixels are two samples apart
  let source' : View :=
    ⟨.sixteen, 12, .ofFn fun i =>
        Sample.saturate .sixteen (4201 * (i.val % 4 / 2 * 8 + i.val / 4 * 2 + i.val % 2)),
      ⟨2, 3, 2, 4, 0, 12, by decide, by decide, by decide⟩⟩
  let dest : View :=
    ⟨.eight, 14, .replicate 14 (Sample.saturate .eight 0),
      ⟨7, 1, 2, 14, 0, 14, by decide, by decide, by decide⟩⟩
  let dest' : View :=
    ⟨.eight, 21, .replicate 21 (Sample.saturate .eight 9),
      ⟨1, 7, 2, 3, 0, 21, by decide, by decide, by decide⟩⟩
  let border : Sample .sixteen := Sample.saturate .sixteen 7000
  let r : Request := ⟨3, 2, 7, 1, .border border, false⟩
  have hfits : k.Fits source dest r :=
    ⟨rfl, rfl, rfl, rfl, fun h => absurd h (by decide), by decide, by decide, by decide, by decide⟩
  have hsource : source.TransposesOn source' 3 2 := ⟨rfl, rfl, by decide, by decide +kernel⟩
  have hdepth : dest.depth = dest'.depth := rfl
  have hcovers : dest'.window.Covers r.destHeight r.destWidth := by decide
  obtain ⟨result', h', hsamples⟩ :=
    launch_transposed hfits.launch_eq_ok rfl hsource hdepth rfl hcovers
  refine ⟨k, source, source', dest, dest', r, border, _, result', rfl, by decide, rfl, hsource, rfl, rfl,
    hfits.launch_eq_ok, h', fun x hx y hy c hc => ?_⟩
  exact hsamples x hx y hy c c (if_pos hc)

end Kernel

end Resample
