import Resample.Proofs.Kernel.Threshold

/-!
# A launch as a map of pixels

A launch computes every sample that it writes from the source and the place of its pixel alone: four
bilinear reads around the center of the pixel, brought to the depth of the destination. The bands, and the
order in which they are written, leave no trace, and no other sample of the buffer is touched, be it in
another slot, in the padding of a row, outside of the region or outside of the view.

## Contents

- §1 the plain map, §2 bands in any order, §3 the buffer after a launch
-/

namespace Resample

/-! ## §1 The plain map -/

/-- The bilinear read of channel `c` at a pair of coordinates. -/
def Texture.read (t : Texture) (u v : Single) (c : Nat) : Nat :=
  t.fetchBetween (.ofCoordinate u) (.ofCoordinate v) c

namespace Variant

/-- What is added to the sum of destination pixel `(x, y)`: half of what is dropped, or a threshold of the
matrix, which is laid over the whole destination again and again. -/
def matrixBias (v : Variant) (x y : Nat) : Nat :=
  if v.dither then Dither.bias (Dither.threshold (x % 64) (y % 64)) v.discarded else 2

theorem bias_eq_matrixBias (v : Variant) (x y : Nat) : v.bias x y = v.matrixBias x y := by
  have hpos : 0 < Dither.side := by decide
  unfold bias matrixBias
  rw [Dither.fetch_table (Nat.mod_lt x hpos) (Nat.mod_lt y hpos)]
  rfl

end Variant

namespace Pass

/-- The sample that source channel `c` gives at destination pixel `(x, y)`: the finished sum of the reads at
the corners of a rectangle around the center of the pixel. -/
def mapped (p : Pass) (dest : Depth) (x y c : Nat) : Sample dest :=
  let cx := p.across.center x
  let cy := p.down.center y
  let dx := p.across.offset
  let dy := p.down.offset
  p.variant.finish
    (p.texture.read (cx - dx) (cy - dy) c + p.texture.read (cx + dx) (cy - dy) c +
      p.texture.read (cx - dx) (cy + dy) c + p.texture.read (cx + dx) (cy + dy) c)
    (p.variant.matrixBias x y) dest

/-- The value of a pixel in a pass is that of the plain map. -/
theorem valueAt_eq_mapped (p : Pass) (dest : Depth) (x y c : Nat) :
    p.valueAt dest x y c = p.mapped dest x y c := by
  unfold valueAt sampleAt mapped
  rw [Variant.bias_eq_matrixBias]
  rfl

/-- A pass draws the plain map of the channels that its layout writes. -/
theorem picture_eq_map (p : Pass) (dest : Depth) (x y slot : Nat) :
    p.picture dest x y slot =
      (p.variant.layout.source? p.variant.channels slot).map (p.mapped dest x y) :=
  congrArg (Option.map · _) (funext (p.valueAt_eq_mapped dest x y))

/-- A slot that the layout writes gets the plain map of its channel. -/
theorem picture_eq_some {p : Pass} {slot c : Nat}
    (hslot : p.variant.layout.source? p.variant.channels slot = some c) (dest : Depth) (x y : Nat) :
    p.picture dest x y slot = some (p.mapped dest x y c) := by
  rw [picture_eq_map, hslot, Option.map_some]

/-! ## §2 Bands in any order -/

variable {size : Nat}

/-- Bands written in another order give the same buffer. -/
theorem writeBands_perm {p : Pass} {dest : Depth} {w : Window size}
    (hchannels : w.channels = p.variant.layout.destChannels p.variant.channels)
    {bands : List (Window size × Nat)} (hbands : bands.Perm (w.bandList bandRows).zipIdx)
    (buffer : Vector (Sample dest) size) :
    p.writeBands ((Array.range w.width).map p.across.taps) bands buffer = p.write w buffer := by
  rw [writeBands_eq_writeAll, write_eq_writeAll]
  refine writeAll_eq_of_mem_iff buffer (fun write => ?_) (draws_writes hchannels).value_unique
  exact (hbands.flatMap_right _).mem_iff

end Pass

/-! ## §3 The buffer after a launch -/

namespace Kernel

variable {k : Kernel} {source dest : View} {r : Request}

/-- Helper: a launch that is made and has something to write is one pass over its region. -/
private theorem exists_write_of_launch {result : Vector (Sample dest.depth) dest.size}
    (h : k.launch source dest r = .ok result) (hregion : ¬ (r.destWidth = 0 ∨ r.destHeight = 0)) :
    ∃ read, source.part 0 0 r.sourceWidth r.sourceHeight = .ok read ∧
      ∃ hwrite : dest.window.Covers r.destWidth r.destHeight,
        dest.window.channels = k.variant.layout.destChannels k.variant.channels ∧
        result = (r.pass k.variant read).write (dest.window.corner _ _ hwrite) dest.data := by
  obtain ⟨hfits, rfl⟩ := fits_of_launch h (by omega) (by omega)
  refine ⟨source.corner _ _ hfits.covers_source, ?_, hfits.covers_dest, hfits.destChannels, ?_⟩
  · rw [View.part_origin, dif_pos hfits.covers_source]
  · unfold written
    rw [if_neg hregion, dif_pos ⟨hfits.covers_source, hfits.covers_dest⟩]

/-- A launch that is made and has something to write is the plain map: it reads one rectangle of the source
and writes one of the destination, each slot that the layout writes holds the value of the map at its pixel,
every other sample of the buffer is what it was, and the bands may be written in any order. -/
theorem pixelMap_of_launch {result : Vector (Sample dest.depth) dest.size}
    (h : k.launch source dest r = .ok result) (hwidth : 0 < r.destWidth) (hheight : 0 < r.destHeight) :
    ∃ read region,
      source.part 0 0 r.sourceWidth r.sourceHeight = .ok read ∧
      dest.window.part 0 0 r.destWidth r.destHeight = .ok region ∧
      (∀ x < r.destWidth, ∀ y < r.destHeight, ∀ slot c,
        k.variant.layout.source? k.variant.channels slot = some c →
        result[dest.window.position x y slot]? =
          some ((r.pass k.variant read).mapped dest.depth x y c)) ∧
      (∀ i, (∀ x < r.destWidth, ∀ y < r.destHeight, ∀ slot,
          (k.variant.layout.source? k.variant.channels slot).isSome →
          i ≠ dest.window.position x y slot) →
        result[i]? = dest.data[i]?) ∧
      ∀ bands, bands.Perm (region.bandList bandRows).zipIdx →
        (r.pass k.variant read).writeBands
          ((Array.range r.destWidth).map (AxisFilter.between r.sourceWidth r.destWidth).taps) bands
          dest.data = result := by
  obtain ⟨read, hread, hwrite, hchannels, rfl⟩ := exists_write_of_launch h (by omega)
  have hregion : dest.window.part 0 0 r.destWidth r.destHeight =
      .ok (dest.window.corner _ _ hwrite) := by rw [Window.part_origin, dif_pos hwrite]
  have hdraws : (dest.window.corner _ _ hwrite).Draws ((r.pass k.variant read).picture dest.depth) _ :=
    Pass.draws_writes hchannels
  refine ⟨read, _, hread, hregion, ?_, ?_, fun bands hbands => Pass.writeBands_perm hchannels hbands _⟩
  · -- a slot of a pixel of the region is a sample of the picture
    intro x hx y hy slot c hslot
    have hin : (dest.window.corner _ _ hwrite).Contains x y slot :=
      ⟨hx, hy, Nat.lt_of_lt_of_eq (Layout.lt_destChannels_of_source? hslot) hchannels.symm⟩
    have hvalue := hdraws.getElem_writeAll dest.data hin (Pass.picture_eq_some hslot dest.depth x y)
    rw [Pass.write_eq_writeAll]
    exact Vector.getElem?_eq_some_iff.2 ⟨hin.position_lt, hvalue⟩
  · -- the picture has no other samples
    intro i hi
    by_cases hsize : i < dest.size
    · have hother := hdraws.getElem_writeAll_of_ne dest.data hsize fun x y slot hin hsome =>
        hi x hin.1 y hin.2.1 slot (Pass.isSome_picture_iff.1 hsome)
      rw [Pass.write_eq_writeAll, Vector.getElem?_eq_getElem hsize, Vector.getElem?_eq_getElem hsize,
        hother]
    · rw [Vector.getElem?_eq_none (by omega), Vector.getElem?_eq_none (by omega)]

/-- Four gray pixels become the second channel of the pixels of another plane, where each keeps its value. The
first channel, the padding and what is around the rows stay as they were. -/
theorem pixelMap_of_launch_interleaved :
    ∃ (k : Kernel) (source dest : View) (r : Request) (result : Vector (Sample dest.depth) dest.size),
      k.launch source dest r = .ok result ∧ 0 < r.destWidth ∧ 0 < r.destHeight ∧
      k.variant.layout = .interleave .second ∧ dest.size = 12 ∧
      (∀ i ∈ [0, 1, 3, 5, 6, 8, 10, 11], result[i]? = dest.data[i]?) ∧
      [(1, 0), (0, 1)].map (fun (x, y) => (result[dest.window.position x y 1]?).map Fin.val) =
        [some 20, some 30] := by
  let k : Kernel := ⟨⟨1, .eight, .eight, false, .interleave .second⟩, rfl, rfl⟩
  let source : View :=
    ⟨.eight, 4, #v[10, 20, 30, 40].map (Sample.saturate .eight),
      ⟨2, 2, 1, 2, 0, 4, by decide, by decide, by decide⟩⟩
  let dest : View :=
    ⟨.eight, 12, .replicate 12 (Sample.saturate .eight 9),
      ⟨2, 2, 2, 5, 1, 10, by decide, by decide, by decide⟩⟩
  let r : Request := ⟨2, 2, 2, 2, .clamp, false⟩
  have hlaunch : k.launch source dest r = .ok (k.written source dest r) := by
    rw [launch_eq_elim]
    rfl
  obtain ⟨read, region, hread, hregion, hslots, hothers, -⟩ :=
    pixelMap_of_launch hlaunch (by decide) (by decide)
  have hpart : source.part 0 0 r.sourceWidth r.sourceHeight = .ok source := rfl
  obtain rfl : source = read := Except.ok.inj (hpart.symm.trans hread)
  refine ⟨k, source, dest, r, _, hlaunch, by decide, by decide, rfl, rfl, fun i hi => ?_, ?_⟩
  · -- the second channels of the four pixels stand at 2, 4, 7 and 9
    have hplace : ∀ x < 2, ∀ y < 2, i ≠ dest.window.position x y 1 := by
      revert i
      decide
    refine hothers i fun x hx y hy slot hslot => ?_
    obtain rfl : slot = 1 := by
      by_contra hne
      exact absurd hslot (by simp [Layout.source?, k, Component.index, hne])
    exact hplace x hx y hy
  · simp only [List.map_cons, List.map_nil]
    rw [hslots 1 (by decide) 0 (by decide) 1 0 rfl, hslots 0 (by decide) 1 (by decide) 1 0 rfl]
    decide +kernel

end Kernel

end Resample
