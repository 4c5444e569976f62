import Resample.Kernel.Variant
import Resample.Picture.Format

/-!
# Routes

A conversion between two formats is a list of launches. Each reads one plane of the source and writes
one plane of the destination, or one channel of it, with a kernel of its own.
-/

namespace Resample

/-- One launch of a conversion. -/
structure Route where
  sourcePlane : Nat
  destPlane : Nat
  /-- Channels of the source plane. -/
  channels : Nat
  layout : Layout
deriving DecidableEq, Repr

namespace Route

/-- The launches between two plane layouts, if one can be brought to the other. -/
def between? : PlaneLayout → PlaneLayout → Option (List Route)
  | .packed n, .packed m =>
    if n = m ∧ (n = 1 ∨ n = 3 ∨ n = 4) then some [⟨0, 0, n, .combined⟩] else none
  | .planar, .planar =>
    some [⟨0, 0, 1, .combined⟩, ⟨1, 1, 1, .combined⟩, ⟨2, 2, 1, .combined⟩]
  | .planar, .semiPlanar =>
    some [⟨0, 0, 1, .combined⟩, ⟨1, 1, 1, .interleave .first⟩, ⟨2, 1, 1, .interleave .second⟩]
  | .semiPlanar, .semiPlanar => some [⟨0, 0, 1, .combined⟩, ⟨1, 1, 2, .combined⟩]
  | .semiPlanar, .planar =>
    some [⟨0, 0, 1, .combined⟩, ⟨1, 1, 2, .split .first⟩, ⟨1, 2, 2, .split .second⟩]
  | .packed _, .planar | .packed _, .semiPlanar | .planar, .packed _ | .semiPlanar, .packed _ => none

/-- What the kernel of a launch is specialized to. -/
def variant (r : Route) (source dest : PixelFormat) (dither : Bool) : Variant where
  channels := r.channels
  source := source.container
  dest := dest.container
  dither := dither
  layout := r.layout

end Route

end Resample
