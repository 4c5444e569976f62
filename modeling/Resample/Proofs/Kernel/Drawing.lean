import Resample.Kernel.Launch
import Resample.Proofs.Grid.Bands

/-!
# What a pass draws

A pass goes over its window band by band, row by row, pixel by pixel and slot by slot. Seen as one list
of writes it draws a picture in which every channel of every pixel is computed from the source alone: the
loops, the bands and the places of the samples do not matter any more.

## Contents

- §1 channels of a layout, §2 the picture of a pass, §3 the loops as writes, §4 the result of a pass
-/

namespace Resample

/-! ## §1 Channels of a layout -/

namespace Layout

/-- The source channel that goes to channel `k` of the destination, if the layout writes that. -/
def source? (layout : Layout) (channels k : Nat) : Option Nat :=
  match layout with
  | combined => if k < channels then some k else none
  | interleave component => if k = component.index then some 0 else none
  | split component => if k = 0 then some component.index else none

/-- The slots of a pixel are the channels that the layout writes. -/
theorem mem_slots_iff {layout : Layout} {channels x slot c : Nat} :
    (slot, c) ∈ layout.slots channels x ↔
      ∃ k, layout.source? channels k = some c ∧ slot = x * layout.destChannels channels + k := by
  -- each layout asks its own question of a channel: below the count, its component, or the first
  cases layout with
  | combined =>
    simp only [slots, List.mem_map, List.mem_range, Prod.mk.injEq, source?, destChannels]
    constructor
    · rintro ⟨k, hk, rfl, rfl⟩
      exact ⟨k, if_pos hk, rfl⟩
    · rintro ⟨k, hk, rfl⟩
      split at hk
      · next hlt => exact ⟨k, hlt, by rw [Option.some.inj hk], Option.some.inj hk⟩
      · exact absurd hk (by simp)
  | interleave component =>
    simp only [slots, List.mem_singleton, Prod.mk.injEq, source?, destChannels]
    constructor
    · rintro ⟨rfl, rfl⟩
      exact ⟨component.index, if_pos rfl, by rw [Nat.mul_comm]⟩
    · rintro ⟨k, hk, rfl⟩
      split at hk
      · next hindex => exact ⟨by rw [hindex, Nat.mul_comm], (Option.some.inj hk).symm⟩
      · exact absurd hk (by simp)
  | split component =>
    simp only [slots, List.mem_singleton, Prod.mk.injEq, source?, destChannels]
    constructor
    · rintro ⟨rfl, rfl⟩
      exact ⟨0, if_pos rfl, by omega⟩
    · rintro ⟨k, hk, rfl⟩
      split at hk
      · next hzero => exact ⟨by omega, (Option.some.inj hk).symm⟩
      · exact absurd hk (by simp)

/-- A layout writes only channels that the destination has. -/
theorem lt_destChannels_of_source? {layout : Layout} {channels k c : Nat}
    (h : layout.source? channels k = some c) : k < layout.destChannels channels := by
  cases layout with
  | combined =>
    simp only [source?] at h
    split at h
    · assumption
    · exact absurd h (by simp)
  | interleave component =>
    simp only [source?] at h
    split at h
    · next hindex =>
      subst hindex
      cases component <;> simp [Component.index, destChannels]
    · exact absurd h (by simp)
  | split component =>
    simp only [source?] at h
    split at h
    · next hzero => subst hzero; exact Nat.one_pos
    · exact absurd h (by simp)

end Layout

/-- The layout of a kernel writes channels of the source only. -/
theorem Variant.Supported.lt_channels {v : Variant} (h : v.Supported) {k c : Nat}
    (hsource : v.layout.source? v.channels k = some c) : c < v.channels := by
  unfold Supported at h
  cases hlayout : v.layout with
  | combined =>
    rw [hlayout] at hsource
    obtain ⟨hlt, hc⟩ := Option.ite_none_right_eq_some.1 hsource
    exact Option.some.inj hc ▸ hlt
  | interleave component =>
    rw [hlayout] at h hsource
    obtain ⟨-, hc⟩ := Option.ite_none_right_eq_some.1 hsource
    have hc := Option.some.inj hc
    omega
  | split component =>
    rw [hlayout] at h hsource
    obtain ⟨-, hc⟩ := Option.ite_none_right_eq_some.1 hsource
    have hc := Option.some.inj hc
    cases component <;> simp only [Component.index] at hc <;> omega

/-- The kernel for a variant is specialized to the variant, which dithers only where samples are narrowed. -/
theorem Kernel.variant_of_select? {v : Variant} {k : Kernel} (hk : select? v = some k) :
    k.variant = v.normalized := by
  unfold select? at hk
  split at hk
  · rw [← Option.some.inj hk]
  · cases hk

namespace Pass

/-! ## §2 The picture of a pass -/

/-- The sample that source channel `c` gives at destination pixel `(x, y)`. -/
def valueAt (p : Pass) (dest : Depth) (x y c : Nat) : Sample dest :=
  p.sampleAt dest (p.across.taps x) (p.down.taps y) x y c

/-- The picture that a pass draws: the value of each channel that its layout writes. -/
def picture (p : Pass) (dest : Depth) (x y k : Nat) : Option (Sample dest) :=
  (p.variant.layout.source? p.variant.channels k).map (p.valueAt dest x y)

/-- A pass draws nothing but the channels that its layout writes. -/
theorem isSome_picture_iff {p : Pass} {dest : Depth} {x y k : Nat} :
    (p.picture dest x y k).isSome ↔ (p.variant.layout.source? p.variant.channels k).isSome := by
  unfold picture
  rw [Option.isSome_map]

/-! ## §3 The loops as writes -/

variable {size : Nat}

/-- The writes of a pixel in the row that begins at `rowStart`. -/
def pixelWrites (p : Pass) (dest : Depth) (x y rowStart : Nat) : List (Nat × Sample dest) :=
  (p.variant.layout.slots p.variant.channels x).map fun (slot, c) =>
    (rowStart + slot, p.valueAt dest x y c)

/-- The writes of a row of pixels. -/
def rowWrites (p : Pass) (dest : Depth) (width y rowStart : Nat) : List (Nat × Sample dest) :=
  (List.range width).flatMap fun x => p.pixelWrites dest x y rowStart

/-- The writes of a band, whose first row is row `firstRow` of the whole destination. -/
def bandWrites (p : Pass) (dest : Depth) (width : Nat) (band : Window size) (firstRow : Nat) :
    List (Nat × Sample dest) :=
  (List.range band.height).flatMap fun row =>
    p.rowWrites dest width (firstRow + row) (band.start + row * band.stride)

/-- The writes of all bands of a window. -/
def writes (p : Pass) (dest : Depth) (w : Window size) : List (Nat × Sample dest) :=
  (w.bandList bandRows).zipIdx.flatMap fun (band, i) => p.bandWrites dest w.width band (i * bandRows)

theorem writePixel_eq_writeAll (p : Pass) {dest : Depth} (x y rowStart : Nat)
    (buffer : Vector (Sample dest) size) :
    p.writePixel (p.across.taps x) (p.down.taps y) x y rowStart buffer =
      writeAll buffer (p.pixelWrites dest x y rowStart) := by
  unfold writePixel pixelWrites writeAll
  rw [List.foldl_map]
  rfl

/-- The taps of a column stand at its number. -/
theorem toList_zipIdx_columns (f : AxisFilter) (width : Nat) :
    ((Array.range width).map f.taps).zipIdx.toList = (List.range width).map fun x => (f.taps x, x) := by
  rw [Array.toList_zipIdx, Array.toList_map, Array.toList_range]
  apply List.ext_getElem <;> simp

theorem writeRow_eq_writeAll (p : Pass) {dest : Depth} (width y rowStart : Nat)
    (buffer : Vector (Sample dest) size) :
    p.writeRow ((Array.range width).map p.across.taps) y rowStart buffer =
      writeAll buffer (p.rowWrites dest width y rowStart) := by
  unfold writeRow rowWrites
  simp only
  rw [← Array.foldl_toList, toList_zipIdx_columns, List.foldl_map, writeAll_flatMap]
  simp only [writePixel_eq_writeAll]

/-- The loops over numbered bands are one list of writes. -/
theorem writeBands_eq_writeAll (p : Pass) {dest : Depth} (width : Nat) (bands : List (Window size × Nat))
    (buffer : Vector (Sample dest) size) :
    p.writeBands ((Array.range width).map p.across.taps) bands buffer =
      writeAll buffer
        (bands.flatMap fun (band, i) => p.bandWrites dest width band (i * bandRows)) := by
  unfold writeBands
  -- a loop over items whose bodies are lists of writes is the list of all of them
  rw [writeAll_flatMap]
  congr 1
  funext buffer (band, i)
  simp only
  unfold writeBand bandWrites
  rw [writeAll_flatMap]
  simp only [writeRow_eq_writeAll]

/-- The loops of a pass are one list of writes. -/
theorem write_eq_writeAll (p : Pass) {dest : Depth} (w : Window size)
    (buffer : Vector (Sample dest) size) : p.write w buffer = writeAll buffer (p.writes dest w) :=
  p.writeBands_eq_writeAll w.width (w.bandList bandRows).zipIdx buffer

/-! ## §4 The result of a pass -/

/-- A write of a row puts a channel of one of its pixels to its place. -/
theorem mem_rowWrites_iff {p : Pass} {dest : Depth} {width y rowStart i : Nat} {v : Sample dest} :
    (i, v) ∈ p.rowWrites dest width y rowStart ↔
      ∃ x < width, ∃ k, p.picture dest x y k = some v ∧
        i = rowStart + (x * p.variant.layout.destChannels p.variant.channels + k) := by
  simp only [rowWrites, pixelWrites, List.mem_flatMap, List.mem_range, List.mem_map, Prod.exists,
    Layout.mem_slots_iff, picture, Option.map_eq_some_iff, Prod.mk.injEq]
  constructor
  · rintro ⟨x, hx, slot, c, ⟨k, hk, rfl⟩, rfl, rfl⟩
    exact ⟨x, hx, k, ⟨c, hk, rfl⟩, rfl⟩
  · rintro ⟨x, hx, k, ⟨c, hk, rfl⟩, rfl⟩
    exact ⟨x, hx, _, c, ⟨k, hk, rfl⟩, rfl, rfl⟩

theorem mem_writes_iff {p : Pass} {dest : Depth} {w : Window size} {i : Nat} {v : Sample dest} :
    (i, v) ∈ p.writes dest w ↔
      ∃ band number, (band, number) ∈ (w.bandList bandRows).zipIdx ∧ ∃ row < band.height,
        (i, v) ∈ p.rowWrites dest w.width (number * bandRows + row) (band.start + row * band.stride) := by
  simp only [writes, bandWrites, List.mem_flatMap, List.mem_range, Prod.exists]

/-- A pass draws its picture into a window with as many channels as its layout has. -/
theorem draws_writes {p : Pass} {dest : Depth} {w : Window size}
    (hchannels : w.channels = p.variant.layout.destChannels p.variant.channels) :
    w.Draws (p.picture dest) (p.writes dest w) := by
  rintro ⟨i, v⟩
  rw [mem_writes_iff]
  constructor
  · -- a write of a band belongs to a row of the window
    rintro ⟨band, number, hband, row, hrow, hwrite⟩
    obtain ⟨x, hx, k, hv, rfl⟩ := mem_rowWrites_iff.1 hwrite
    obtain ⟨c, hk, -⟩ := Option.map_eq_some_iff.1 hv
    have hlt : k < w.channels := hchannels ▸ Layout.lt_destChannels_of_source? hk
    have hsamples : 0 < bandRows * w.stride := by
      have hstride := w.row_le_stride
      have harea : 0 < w.width * w.channels := Nat.mul_pos (by omega) (by omega)
      exact Nat.mul_pos (by decide) (by omega)
    obtain ⟨hy, hstart⟩ := Window.row_of_mem_bandList hsamples hband hrow
    refine ⟨x, number * bandRows + row, k, v, ⟨hx, hy, hlt⟩, hv, ?_⟩
    rw [Window.position_eq, hstart, hchannels]
  · -- a row of the window belongs to the band that its number gives
    rintro ⟨x, y, k, u, hin, hv, heq⟩
    obtain ⟨rfl, rfl⟩ := Prod.mk.inj heq
    have hrow : 0 < w.rowLength := by
      have := hin.column_lt
      omega
    have hrows : 0 < bandRows := by decide
    obtain ⟨band, hband, hlt, hstart, -⟩ := Window.exists_band_of_row hrows hrow hin.2.1
    refine ⟨band, y / bandRows, hband, y % bandRows, hlt, ?_⟩
    rw [mem_rowWrites_iff, hstart, Nat.mul_comm, Nat.div_add_mod]
    refine ⟨x, hin.1, k, hv, ?_⟩
    rw [Window.position_eq, hchannels]

end Pass

end Resample
