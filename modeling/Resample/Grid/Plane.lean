import Resample.Grid.Sample
import Resample.Grid.Window

/-!
# Planes

A plane owns its samples: `height` rows of `stride` samples, of which the first `width * channels` are
visible and the rest is padding. A raster is a plane together with the depth of its samples, and a
view is a window onto the samples of some raster.
-/

namespace Resample

/-! ## §1 Planes -/

/-- A rectangle of pixels with samples of its own. -/
structure Plane (α : Type) where
  width : Nat
  height : Nat
  channels : Nat
  stride : Nat
  data : Vector α (stride * height)
  row_le_stride : width * channels ≤ stride
deriving DecidableEq

namespace Plane

variable {α : Type}

/-- Buffers of this many samples and more cannot be allocated. -/
def unallocatable : Nat := 0x1000000000000000

/-- The plane without padding that holds the given samples. -/
def ofArray (width height channels : Nat) (data : Array α) : Except GridError (Plane α) := do
  checkChannels channels
  let count := width * channels * height
  if h : data.size = count ∧ width * channels ≤ Word.top then
    return { width, height, channels
             stride := width * channels
             data := ⟨data, h.1⟩
             row_le_stride := Nat.le_refl _ }
  else
    throw (.sizeMismatch (if width * channels ≤ Word.top then min count Word.top else Word.top)
      data.size)

/-- The plane without padding that holds one value throughout. Channels are not checked. -/
def filled (width height channels : Nat) (value : α) : Except Fault (Plane α) :=
  if width * channels ≤ Word.top ∧ width * channels * height < unallocatable then
    .ok { width, height, channels
          stride := width * channels
          data := Vector.replicate _ value
          row_le_stride := Nat.le_refl _ }
  else .error .sizeOverflow

/-- The plane with rows of `stride` samples that holds one value throughout. -/
def padded (width height channels stride : Nat) (value : α) : Except GridError (Plane α) := do
  checkChannels channels
  if h : width * channels ≤ stride then
    if stride * height < unallocatable then
      return { width, height, channels, stride
               data := Vector.replicate _ value
               row_le_stride := h }
    else throw (.allocation (min (stride * height) Word.top))
  else throw .invalidStride

/-- The window of all pixels of a plane. -/
def window (p : Plane α) : Window (p.stride * p.height) where
  width := p.width
  height := p.height
  channels := p.channels
  stride := p.stride
  start := 0
  length := p.stride * p.height
  start_add_length_le := by omega
  row_le_stride := p.row_le_stride
  span_le_length := spanLength_le_mul p.row_le_stride

/-- All rows of a plane, without padding, joined. -/
def samples (p : Plane α) : Array α := p.window.samples p.data

/-- Copies the visible samples of a plane of the same shape. -/
def copyFrom (p source : Plane α) : Except GridError (Plane α) :=
  if p.window.SameShape source.window then
    .ok { p with data := p.window.putAll p.data source.window source.data }
  else .error (p.window.shapeError source.window)

end Plane

/-! ## §2 Rasters and views -/

/-- A plane of samples of depth `depth`. -/
structure Raster where
  depth : Depth
  plane : Plane (Sample depth)
deriving DecidableEq

/-- A window onto a buffer of samples of depth `depth`. -/
structure View where
  depth : Depth
  size : Nat
  data : Vector (Sample depth) size
  window : Window size

namespace Raster

/-- Rows of new rasters are whole multiples of this many samples. -/
def alignment : Nat := 32

/-- The raster of zeros with the given sides and the shortest aligned rows. -/
def zeros (depth : Depth) (width height channels : Nat) : Except GridError Raster := do
  let rowLength := width * channels
  if rowLength ≤ Word.top then
    let stride := (rowLength + alignment - 1) / alignment * alignment
    return ⟨depth, ← Plane.padded width height channels stride default⟩
  else throw .invalidStride

/-- The view of all pixels. -/
def view (r : Raster) : View := ⟨r.depth, _, r.plane.data, r.plane.window⟩

/-- The raster with other samples in its buffer. -/
def withData (r : Raster) (data : Vector (Sample r.depth) (r.plane.stride * r.plane.height)) : Raster :=
  ⟨r.depth, { r.plane with data }⟩

/-- Number of visible samples. -/
def sampleCount (r : Raster) : Nat := r.plane.width * r.plane.height * r.plane.channels

/-- Copies the visible samples of a raster of the same shape and depth. -/
def copyFrom (r source : Raster) : Except GridError Raster :=
  if h : source.depth = r.depth then
    return { r with plane := ← r.plane.copyFrom (h ▸ source.plane) }
  else
    throw (.sizeMismatch r.sampleCount source.sampleCount)

end Raster

namespace View

/-- The view of a part of a view. -/
def part (v : View) (x y width height : Nat) : Except GridError View :=
  return { v with window := ← v.window.part x y width height }

end View

end Resample
