import Resample.Grid.Texture

/-!
# Ordered dithering

A square matrix of thresholds spread evenly over 16 bits. Position `(x, y)` holds the rank of the
position in the recursive Bayer ordering, scaled to 16 bits. Before the low bits of a value are
dropped, the threshold, scaled to those bits, is added to it: so the share of neighbouring pixels that
are rounded up is the fraction that is dropped.
-/

namespace Resample.Dither

/-- Bits of a coordinate of the matrix. -/
def order : Nat := 6

/-- Rows and columns of the matrix. -/
def side : Nat := 1 <<< order

/-- Bits of a threshold. -/
def bits : Nat := 16

/-- Contribution to the rank of the `bit`-th bits of a position: the lowest bits of the coordinates
decide first and so become the highest bits of the rank. -/
def rankBits (x y bit : Nat) : Nat :=
  -- two bits of the rank for each bit of the coordinates, the last ones first
  let shift := 2 * (order - 1 - bit)
  ((((x ^^^ y) >>> bit) % 2) <<< (shift + 1)) ||| (((y >>> bit) % 2) <<< shift)

/-- Rank of a position in the Bayer ordering. -/
def rank (x y : Nat) : Nat :=
  (List.range order).foldl (fun found bit => found ||| rankBits x y bit) 0

/-- The threshold at a position. The matrix repeats in both directions. -/
def threshold (x y : Nat) : Sample .sixteen :=
  Sample.truncate .sixteen (rank (x % side) (y % side) <<< (bits - 2 * order))

/-- The matrix as a plane of one channel. -/
def plane : Plane (Sample .sixteen) where
  width := side
  height := side
  channels := 1
  stride := side
  data := Vector.ofFn fun i => threshold (i % side) (i / side)
  row_le_stride := by decide

/-- The matrix as kernels read it. -/
def table : Texture where
  view := ⟨.sixteen, _, plane.data, plane.window⟩
  mode := .clamp

/-- What is added to a value before its low `discarded` bits are dropped. -/
def bias (threshold discarded : Nat) : Nat := (1 + threshold) >>> (bits - discarded)

end Resample.Dither
