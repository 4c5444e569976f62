import Resample.Kernel.Dither
import Resample.Kernel.Filter
import Resample.Kernel.Variant

/-!
# Launching a kernel

A launch fills a rectangle at the origin of a destination view with the resampled rectangle at the
origin of a source view. The destination is cut into bands of rows that are written independently of
each other, and each pixel of a band is computed from the source alone, so the order of the bands does
not matter.

## Contents

- §1 the value of a pixel, §2 bands, §3 requests and refusals, §4 the grid of work items
-/

namespace Resample

/-! ## §1 The value of a pixel -/

namespace Variant

/-- Turns the sum of four reads into a sample of the destination. Where low bits of the sum are
dropped, `bias` is added first; where the sample is wider than the sum, the sum is scaled up. -/
def finish (v : Variant) (sum bias : Nat) (dest : Depth) : Sample dest :=
  -- a sum of four reads has two bits more than a sample of the source
  if v.dest.bits < v.source.bits + 2 then
    Sample.saturate dest ((sum + bias) >>> v.discarded)
  else
    Sample.saturate dest (sum <<< (v.dest.bits - v.source.bits - 2))

/-- What is added to the sum of pixel `(x, y)`: half of the dropped part of a sum of equal depths, or
the scaled threshold of the pixel. -/
def bias (v : Variant) (x y : Nat) : Nat :=
  if v.dither then
    Dither.bias (Dither.table.fetch ↑(x % Dither.side) ↑(y % Dither.side) 0) v.discarded
  else 2

end Variant

/-! ## §2 Bands -/

/-- Rows of a band. -/
def bandRows : Nat := 16

/-- Everything that the pixels of one launch have in common. -/
structure Pass where
  variant : Variant
  texture : Texture
  across : AxisFilter
  down : AxisFilter

namespace Pass

/-- The sample that source channel `c` gives at destination pixel `(x, y)`, from the taps of that
pixel. -/
def sampleAt (p : Pass) (dest : Depth) (across down : TapPair) (x y c : Nat) : Sample dest :=
  p.variant.finish (p.texture.sum across down c) (p.variant.bias x y) dest

/-- Writes pixel `(x, y)` into the row of the buffer that begins at `rowStart`. -/
def writePixel (p : Pass) {dest : Depth} {size : Nat} (across down : TapPair) (x y rowStart : Nat)
    (buffer : Vector (Sample dest) size) : Vector (Sample dest) size :=
  (p.variant.layout.slots p.variant.channels x).foldl
    (fun buffer (slot, c) =>
      buffer.setIfInBounds (rowStart + slot) (p.sampleAt dest across down x y c))
    buffer

/-- Writes a row of pixels; `columns` holds the taps of its pixels. -/
def writeRow (p : Pass) {dest : Depth} {size : Nat} (columns : Array TapPair) (y rowStart : Nat)
    (buffer : Vector (Sample dest) size) : Vector (Sample dest) size :=
  -- all pixels of a row have their taps down the columns in common
  let down := p.down.taps y
  columns.zipIdx.foldl (fun buffer (across, x) => p.writePixel across down x y rowStart buffer) buffer

/-- Writes a band, whose first row is row `firstRow` of the whole destination. -/
def writeBand (p : Pass) {dest : Depth} {size : Nat} (columns : Array TapPair) (band : Window size)
    (firstRow : Nat) (buffer : Vector (Sample dest) size) : Vector (Sample dest) size :=
  (List.range band.height).foldl
    (fun buffer row =>
      p.writeRow columns (firstRow + row) (band.start + row * band.stride) buffer)
    buffer

/-- Writes numbered bands one after another. -/
def writeBands (p : Pass) {dest : Depth} {size : Nat} (columns : Array TapPair)
    (bands : List (Window size × Nat)) (buffer : Vector (Sample dest) size) :
    Vector (Sample dest) size :=
  bands.foldl (fun buffer (band, i) => p.writeBand columns band (i * bandRows) buffer) buffer

/-- Writes all pixels of a window, band by band from the top down. -/
def write (p : Pass) {dest : Depth} {size : Nat} (window : Window size)
    (buffer : Vector (Sample dest) size) : Vector (Sample dest) size :=
  let columns := (Array.range window.width).map p.across.taps
  p.writeBands columns (window.bandList bandRows).zipIdx buffer

end Pass

/-! ## §3 Requests and refusals -/

/-- The arguments of a launch besides the planes. -/
structure Request where
  sourceWidth : Nat
  sourceHeight : Nat
  destWidth : Nat
  destHeight : Nat
  mode : AddressMode
  /-- Whether the dither table is at hand. -/
  table : Bool

/-- Why a launch is refused. -/
inductive LaunchError where
  | sourceDepth (expected actual : Nat)
  | destDepth (expected actual : Nat)
  | sourceChannels (expected actual : Nat)
  | destChannels (expected actual : Nat)
  | emptySource (destWidth destHeight : Nat)
  | missingDither
  | region (inner : GridError)
deriving DecidableEq, Repr

/-- The text of a refusal. -/
def LaunchError.message : LaunchError → String
  | sourceDepth expected actual =>
    s!"source plane holds {actual}-bit samples, kernel reads {expected}-bit"
  | destDepth expected actual =>
    s!"destination plane holds {actual}-bit samples, kernel writes {expected}-bit"
  | sourceChannels expected actual =>
    s!"source plane has {actual} channels, kernel reads {expected}"
  | destChannels expected actual =>
    s!"destination plane has {actual} channels, kernel writes {expected}"
  | emptySource destWidth destHeight =>
    s!"empty source plane for a {destWidth}x{destHeight} destination"
  | missingDither => "dithered kernel launched without a dither table"
  | region inner => s!"launch region does not fit the plane: {inner.message}"

namespace Kernel

/-- Fills the `destWidth` by `destHeight` rectangle at the origin of the destination, and gives the
samples of the destination's buffer afterwards. A refused launch writes nothing. -/
def launch (k : Kernel) (source dest : View) (r : Request) :
    Except LaunchError (Vector (Sample dest.depth) dest.size) := do
  let v := k.variant
  if source.depth ≠ v.source then throw (.sourceDepth v.source.bits source.depth.bits)
  if dest.depth ≠ v.dest then throw (.destDepth v.dest.bits dest.depth.bits)
  if source.window.channels ≠ v.channels then
    throw (.sourceChannels v.channels source.window.channels)
  if dest.window.channels ≠ v.layout.destChannels v.channels then
    throw (.destChannels (v.layout.destChannels v.channels) dest.window.channels)
  -- nothing to write needs no source, no table and no room
  if r.destWidth = 0 ∨ r.destHeight = 0 then return dest.data
  if r.sourceWidth = 0 ∨ r.sourceHeight = 0 then
    throw (.emptySource r.destWidth r.destHeight)
  if v.dither ∧ ¬ r.table then throw .missingDither
  let read ← (source.part 0 0 r.sourceWidth r.sourceHeight).mapError .region
  let written ← (dest.window.part 0 0 r.destWidth r.destHeight).mapError .region
  let pass : Pass :=
    { variant := v
      texture := ⟨read, r.mode⟩
      across := .between r.sourceWidth r.destWidth
      down := .between r.sourceHeight r.destHeight }
  return pass.write written dest.data

end Kernel

/-! ## §4 The grid of work items -/

/-- The blocks of work items that cover a destination; a block is `width` items wide and one band
high. -/
structure LaunchGrid where
  across : Nat
  down : Nat
deriving DecidableEq, Repr

namespace LaunchGrid

/-- Work items of a block along a row. -/
def blockWidth : Nat := 32

/-- The grid that covers a destination. -/
def covering (destWidth destHeight : Nat) : LaunchGrid where
  across := (destWidth + blockWidth - 1) / blockWidth
  down := (destHeight + bandRows - 1) / bandRows

/-- Number of blocks. -/
def blocks (g : LaunchGrid) : Nat := g.across * g.down

/-- Number of work items, those beyond the edges included. -/
def workItems (g : LaunchGrid) : Nat := g.blocks * blockWidth * bandRows

end LaunchGrid

end Resample
