import Resample.Kernel.Guarded

/-!
# Arithmetic in words

A read between texels is computed in words, and the number that becomes a sample in words of half as many bits.
Here every difference, product and sum is looked at as soon as it is computed, and so is what a shift to the left
makes: one that its word cannot hold is a fault.

## Contents

- §1 reads, §2 numbers of a pixel
-/

namespace Resample

/-! ## §1 Reads -/

/-- The mean of two values weighted by a tap, in 256ths. -/
def Tap.guardedMix (t : Tap) (first second : Nat) : Except Fault Nat := do
  let others ← Word.minus tapOne t.weight
  let first ← Word.held Word.top (others * first)
  let second ← Word.held Word.top (t.weight * second)
  Word.held Word.top (first + second)

namespace Texture

/-- The values of the first `count` channels at an index pair. -/
def guardedFetch (t : Texture) (count : Nat) (x y : Int) : Except Fault (List Nat) := do
  t.checkFetch count x y
  return (List.range count).map (t.fetch x y)

/-- The value of channel `c` between texels. The mean is rounded in a word, and the value is half as long. -/
def guardedBetween (t : Texture) (across down : Tap) (c : Nat) : Except Fault Nat := do
  let upper ← across.guardedMix (t.fetch across.base down.base c) (t.fetch (across.base + 1) down.base c)
  let lower ← across.guardedMix (t.fetch across.base (down.base + 1) c)
    (t.fetch (across.base + 1) (down.base + 1) c)
  let mean ← down.guardedMix upper lower
  let raised ← Word.held Word.top (mean + tapOne * tapOne / 2)
  Word.held Word.topHalf (raised / (tapOne * tapOne))

/-- The values of the first `count` channels at a pair of coordinates. -/
def guardedRead (t : Texture) (count : Nat) (u v : Single) : Except Fault (List Nat) := do
  let across := Tap.ofCoordinate u
  let down := Tap.ofCoordinate v
  across.check
  down.check
  t.checkFetch count across.base down.base
  t.checkFetch count (across.base + 1) down.base
  t.checkFetch count across.base (down.base + 1)
  t.checkFetch count (across.base + 1) (down.base + 1)
  (List.range count).mapM (t.guardedBetween across down)

/-! ## §2 Numbers of a pixel -/

/-- The sum of the four reads of channel `c` for a pair of taps on each axis. -/
def guardedSum (t : Texture) (across down : TapPair) (c : Nat) : Except Fault Nat := do
  let first ← t.guardedBetween across.before down.before c
  let second ← t.guardedBetween across.after down.before c
  let third ← t.guardedBetween across.before down.after c
  let fourth ← t.guardedBetween across.after down.after c
  let sum ← Word.held Word.topHalf (first + second)
  let sum ← Word.held Word.topHalf (sum + third)
  Word.held Word.topHalf (sum + fourth)

end Texture

/-- What is added to a value before its low `discarded` bits are dropped. -/
def Dither.guardedBias (threshold discarded : Nat) : Except Fault Nat := do
  let next ← Word.held Word.topHalf (1 + threshold)
  return next >>> (bits - discarded)

namespace Variant

/-- What is added to the sum of pixel `(x, y)`. -/
def guardedBias (v : Variant) (x y : Nat) : Except Fault Nat := do
  if v.dither then
    Dither.table.checkFetch 1 ↑(x % Dither.side) ↑(y % Dither.side)
    Dither.guardedBias (Dither.table.fetch ↑(x % Dither.side) ↑(y % Dither.side) 0) v.discarded
  else return 2

/-- The number that a sum of four reads makes, before it is brought into the range of the samples. -/
def guardedNumber (v : Variant) (sum bias : Nat) : Except Fault Nat := do
  if v.dest.bits < v.source.bits + 2 then
    let raised ← Word.held Word.topHalf (sum + bias)
    return raised >>> v.discarded
  else Word.held Word.topHalf (sum <<< (v.dest.bits - v.source.bits - 2))

end Variant

/-- The number that source channel `c` makes at destination pixel `(x, y)`. -/
def Pass.guardedNumber (p : Pass) (x y c : Nat) : Except Fault Nat := do
  let sum ← p.texture.guardedSum (p.across.taps x) (p.down.taps y) c
  p.variant.guardedNumber sum (← p.variant.guardedBias x y)

end Resample
