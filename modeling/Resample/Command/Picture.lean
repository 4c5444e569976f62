import Resample.Raw.Codec

/-!
# Pictures

Decoded image files. A picture has one of eight color types; a frame takes some of them as they are
and others after an alpha channel was added or a gray value was repeated.
-/

namespace Resample

/-- Channels and bits of a picture. -/
inductive ColorType where
  | l8
  | la8
  | rgb8
  | rgba8
  | l16
  | la16
  | rgb16
  | rgba16
deriving DecidableEq, Repr

/-- A decoded image file: rows of pixels from the top down, without padding. -/
structure Picture where
  color : ColorType
  width : Nat
  height : Nat
  samples : List Nat
deriving DecidableEq, Repr

namespace Picture

/-- The bytes that image files begin with. -/
def signature : List UInt8 := [0x89, 0x50, 0x4E, 0x47, 0x0D, 0x0A, 0x1A, 0x0A]

/-- Pixels of gray and alpha as pixels of red, green, blue and alpha. -/
def grayToColor : List Nat → List Nat
  | gray :: alpha :: rest => gray :: gray :: gray :: alpha :: grayToColor rest
  | _ => []

/-- Pixels of red, green and blue with an alpha value. -/
def addAlpha (alpha : Nat) : List Nat → List Nat
  | red :: green :: blue :: rest => red :: green :: blue :: alpha :: addAlpha alpha rest
  | _ => []

/-- The format of a picture's frame, and its samples in that format. -/
def packed (p : Picture) : PixelFormat × List Nat :=
  match p.color with
  | .l8 => (.gray8, p.samples)
  | .l16 => (.gray16, p.samples)
  | .rgb8 => (.rgb24, p.samples)
  | .rgba8 => (.rgba, p.samples)
  | .rgba16 => (.rgba64, p.samples)
  | .la8 => (.rgba, grayToColor p.samples)
  | .la16 => (.rgba64, grayToColor p.samples)
  | .rgb16 => (.rgba64, addAlpha Depth.sixteen.top p.samples)

/-- The frame of a picture. -/
def toFrame (p : Picture) : Except RawError Frame := do
  let (format, samples) := p.packed
  let depth := format.container
  let shape : Shape := { format, width := p.width, height := p.height }
  let data := (samples.map (Sample.saturate depth)).toArray
  let plane ← (Plane.ofArray p.width p.height (format.planeChannels 0) data).mapError .plane
  (Frame.ofPlanes shape [⟨depth, plane⟩]).mapError (.misfit shape)

/-- The color type of the pictures that a format can be saved as. -/
def colorOf? : PixelFormat → Option ColorType
  | .gray8 => some .l8
  | .gray16 => some .l16
  | .rgb24 => some .rgb8
  | .rgba => some .rgba8
  | .rgba64 => some .rgba16
  | _ => none

/-- The picture of a frame, if its format can be saved. -/
def ofFrame? (f : Frame) : Option Picture := do
  let color ← colorOf? f.shape.format
  let raster ← f.plane? 0
  return { color
           width := f.shape.width
           height := f.shape.height
           samples := raster.plane.samples.toList.map Fin.val }

end Picture

/-- The packed format with 16 bits, or with 8, that has the components of the given one. -/
def packedWithDepth? (format : PixelFormat) (wide : Bool) : Option PixelFormat :=
  match format, wide with
  | .gray8, false | .gray16, false => some .gray8
  | .gray8, true | .gray16, true => some .gray16
  | .rgb24, false => some .rgb24
  | .rgba, false | .rgba64, false => some .rgba
  | .rgba, true | .rgba64, true => some .rgba64
  | _, _ => none

end Resample
