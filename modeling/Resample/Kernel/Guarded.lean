import Resample.Kernel.Launch

/-!
# Launches that can fault

A launch computes places and sums in machine words, and reads and writes at the places. Here everything is
looked at before it is used: what a word cannot hold, a row or a pixel that is not there, and a slot that a
row does not have are faults. The samples of the destination are the state of a launch, so that a launch
which is refused, or which meets a fault, leaves what it has done so far.

## Contents

- §1 reads, §2 pixels, §3 rows and bands, §4 launches
-/

namespace Resample

/-! ## §1 Reads -/

/-- The texel that index `i` reads. The period of a mirrored axis is not zero, and the way back from the
second half of a period does not leave the axis. -/
def AddressMode.guarded (mode : AddressMode) (i : Int) (len : Nat) : Except Fault (Option Nat) := do
  let found ← mode.lookup i len
  if mode = mirror ∧ len ≠ 0 ∧ (mirrorPeriod len = 0 ∨ 2 * len - 1 < (i % mirrorPeriod len).toNat) then
    throw .sizeOverflow
  return found

/-- Refuses a tap whose second texel has no index. -/
def Tap.check (t : Tap) : Except Fault Unit :=
  if Word.greatest ≤ t.base then .error .sizeOverflow else .ok ()

namespace Texture

/-- Refuses a read of `count` channels at an index pair. -/
def checkFetch (t : Texture) (count : Nat) (x y : Int) : Except Fault Unit := do
  let w := t.view.window
  if w.channels < count then throw .samplesOutOfRange
  -- where the first axis has no texel, the second one is not asked
  let some i ← t.mode.guarded x w.width | return
  let some j ← t.mode.guarded y w.height | return
  if Word.top < j * w.stride + i * w.channels + w.channels then throw .sizeOverflow

/-- What a read between texels adds up: the four texels with their weights, and a half. -/
def weighted (t : Texture) (across down : Tap) (c : Nat) : Nat :=
  let upper := across.mix (t.fetch across.base down.base c) (t.fetch (across.base + 1) down.base c)
  let lower := across.mix (t.fetch across.base (down.base + 1) c)
    (t.fetch (across.base + 1) (down.base + 1) c)
  down.mix upper lower + tapOne * tapOne / 2

/-- Refuses a read of `count` channels between texels. -/
def checkBetween (t : Texture) (count : Nat) (across down : Tap) : Except Fault Unit := do
  across.check
  down.check
  t.checkFetch count across.base down.base
  t.checkFetch count (across.base + 1) down.base
  t.checkFetch count across.base (down.base + 1)
  t.checkFetch count (across.base + 1) (down.base + 1)
  if (List.range count).any fun c => Word.top < t.weighted across down c then throw .sizeOverflow

/-- Refuses the four reads of `count` channels for a pair of taps on each axis. -/
def checkReads (t : Texture) (count : Nat) (across down : TapPair) : Except Fault Unit := do
  t.checkBetween count across.before down.before
  t.checkBetween count across.after down.before
  t.checkBetween count across.before down.after
  t.checkBetween count across.after down.after

end Texture

/-! ## §2 Pixels -/

/-- Refuses pixel `x` of a row that lacks one of its slots, or a pixel that lacks a channel. -/
def Layout.checkStore (layout : Layout) (channels rowLength x : Nat) : Except Fault Unit :=
  if (layout.slots channels x).all fun (slot, c) => slot < rowLength ∧ c < channels then .ok ()
  else .error .samplesOutOfRange

namespace Pass

/-- Refuses pixel `(x, y)`, which is to be written into a row of `rowLength` samples. -/
def checkPixel (p : Pass) (across down : TapPair) (x y rowLength : Nat) : Except Fault Unit := do
  let v := p.variant
  p.texture.checkReads v.channels across down
  if v.dither then Dither.table.checkFetch 1 ↑(x % Dither.side) ↑(y % Dither.side)
  if (List.range v.channels).any fun c => Word.topHalf < p.texture.sum across down c + v.bias x y then
    throw .sizeOverflow
  v.layout.checkStore v.channels rowLength x

/-- Writes pixel `(x, y)` into the row of the buffer that begins at `rowStart`. -/
def guardedPixel (p : Pass) {dest : Depth} {size : Nat} (across down : TapPair) (x y rowStart rowLength : Nat)
    (buffer : Vector (Sample dest) size) : Except Fault (Vector (Sample dest) size) := do
  p.checkPixel across down x y rowLength
  return p.writePixel across down x y rowStart buffer

/-! ## §3 Rows and bands -/

/-- Writes row `row` of a band, which is row `y` of the whole destination. -/
def guardedRow (p : Pass) {dest : Depth} {size : Nat} (columns : Array TapPair) (band : Window size)
    (y row : Nat) (buffer : Vector (Sample dest) size) : Except Fault (Vector (Sample dest) size) := do
  band.checkRow row
  let down := p.down.taps y
  columns.zipIdx.foldlM
    (fun buffer (across, x) =>
      p.guardedPixel across down x y (band.start + row * band.stride) band.rowLength buffer)
    buffer

/-- Writes a band, whose first row is row `firstRow` of the whole destination. -/
def guardedBand (p : Pass) {dest : Depth} {size : Nat} (columns : Array TapPair) (band : Window size)
    (firstRow : Nat) (buffer : Vector (Sample dest) size) : Except Fault (Vector (Sample dest) size) :=
  (List.range band.height).foldlM
    (fun buffer row => p.guardedRow columns band (firstRow + row) row buffer) buffer

/-- Writes all pixels of a window, band by band from the top down. -/
def guardedWrite (p : Pass) {dest : Depth} {size : Nat} (window : Window size)
    (buffer : Vector (Sample dest) size) : Except Fault (Vector (Sample dest) size) := do
  let columns := (Array.range window.width).map p.across.taps
  let bands ← window.cut bandRows
  bands.zipIdx.foldlM (fun buffer (band, i) => p.guardedBand columns band (i * bandRows) buffer) buffer

end Pass

/-! ## §4 Launches -/

/-- Work on the samples of a destination that can be refused, and can meet a fault. -/
abbrev Launching (dest : View) : Type → Type :=
  ExceptT LaunchError (StateT (Vector (Sample dest.depth) dest.size) (Except Fault))

namespace Kernel

/-- What a launch does, one step after another. -/
def steps (k : Kernel) (source dest : View) (r : Request) : Launching dest Unit := do
  let v := k.variant
  if source.depth ≠ v.source then throw (.sourceDepth v.source.bits source.depth.bits)
  if dest.depth ≠ v.dest then throw (.destDepth v.dest.bits dest.depth.bits)
  if source.window.channels ≠ v.channels then
    throw (.sourceChannels v.channels source.window.channels)
  if dest.window.channels ≠ v.layout.destChannels v.channels then
    throw (.destChannels (v.layout.destChannels v.channels) dest.window.channels)
  if r.destWidth = 0 ∨ r.destHeight = 0 then return
  if r.sourceWidth = 0 ∨ r.sourceHeight = 0 then
    throw (.emptySource r.destWidth r.destHeight)
  if v.dither ∧ ¬ r.table then throw .missingDither
  let read ← MonadExcept.ofExcept ((source.part 0 0 r.sourceWidth r.sourceHeight).mapError .region)
  let written ← MonadExcept.ofExcept ((dest.window.part 0 0 r.destWidth r.destHeight).mapError .region)
  let pass : Pass :=
    { variant := v
      texture := ⟨read, r.mode⟩
      across := .between r.sourceWidth r.destWidth
      down := .between r.sourceHeight r.destHeight }
  set (← pass.guardedWrite written (← get))

/-- A launch with everything looked at before it is used: how it ends, and the samples of the destination's
buffer afterwards. -/
def guardedLaunch (k : Kernel) (source dest : View) (r : Request) :
    Except Fault (Except LaunchError Unit × Vector (Sample dest.depth) dest.size) :=
  (k.steps source dest r).run.run dest.data

end Kernel

end Resample
