import Resample.Grid.Sample
import Resample.Text.Blank

/-!
# Pixel formats

A format says how the components of a picture are spread over planes, how many bits they have and how
much smaller than the picture its chroma planes are.
-/

namespace Resample

/-! ## §1 Formats -/

/-- The supported pixel formats. -/
inductive PixelFormat where
  | gray8
  | gray16
  | yuv420p
  | yuv422p
  | yuv444p
  | nv12
  | p010
  | p016
  | rgb24
  | rgba
  | rgba64
deriving DecidableEq, Repr

/-- How the components of a picture are spread over planes. -/
inductive PlaneLayout where
  /-- One plane of `channels` channels. -/
  | packed (channels : Nat)
  /-- A luma plane and two chroma planes. -/
  | planar
  /-- A luma plane and a chroma plane of two channels. -/
  | semiPlanar
deriving DecidableEq, Repr

namespace PixelFormat

/-- All formats. -/
def all : List PixelFormat :=
  [gray8, gray16, yuv420p, yuv422p, yuv444p, nv12, p010, p016, rgb24, rgba, rgba64]

theorem mem_all (f : PixelFormat) : f ∈ all := by
  cases f <;> decide

/-- The name of a format. -/
def name : PixelFormat → String
  | gray8 => "gray8"
  | gray16 => "gray16"
  | yuv420p => "yuv420p"
  | yuv422p => "yuv422p"
  | yuv444p => "yuv444p"
  | nv12 => "nv12"
  | p010 => "p010"
  | p016 => "p016"
  | rgb24 => "rgb24"
  | rgba => "rgba"
  | rgba64 => "rgba64"

/-- Significant bits of a component. -/
def bits : PixelFormat → Nat
  | gray16 | p016 | rgba64 => 16
  | p010 => 10
  | gray8 | yuv420p | yuv422p | yuv444p | nv12 | rgb24 | rgba => 8

/-- Halvings of the width from the picture to its chroma planes. -/
def chromaShiftX : PixelFormat → Nat
  | yuv420p | yuv422p | nv12 | p010 | p016 => 1
  | gray8 | gray16 | yuv444p | rgb24 | rgba | rgba64 => 0

/-- Halvings of the height from the picture to its chroma planes. -/
def chromaShiftY : PixelFormat → Nat
  | yuv420p | nv12 | p010 | p016 => 1
  | gray8 | gray16 | yuv422p | yuv444p | rgb24 | rgba | rgba64 => 0

/-- The layout of a format. -/
def layout : PixelFormat → PlaneLayout
  | gray8 | gray16 => .packed 1
  | rgb24 => .packed 3
  | rgba | rgba64 => .packed 4
  | yuv420p | yuv422p | yuv444p => .planar
  | nv12 | p010 | p016 => .semiPlanar

/-- The container of every sample. -/
def container (f : PixelFormat) : Depth := if 8 < f.bits then .sixteen else .eight

/-- Number of planes. -/
def planeCount (f : PixelFormat) : Nat :=
  match f.layout with
  | .packed _ => 1
  | .planar => 3
  | .semiPlanar => 2

/-- Channels of plane `i`. -/
def planeChannels (f : PixelFormat) (i : Nat) : Nat :=
  match f.layout with
  | .packed channels => channels
  | .semiPlanar => if i = 1 then 2 else 1
  | .planar => 1

end PixelFormat

/-! ## §2 Sides of planes -/

/-- A side after `shift` halvings, rounded up, so that the last pixel of an odd side is kept. -/
def halved (side shift : Nat) : Nat := (side + (1 <<< shift) - 1) >>> shift

/-- Sides of the chroma planes of a picture. -/
def chromaSides (width height shiftX shiftY : Nat) : Nat × Nat :=
  (halved width shiftX, halved height shiftY)

/-- Sides of plane `i` of a picture. -/
def PixelFormat.planeSides (f : PixelFormat) (i width height : Nat) : Nat × Nat :=
  if i = 0 then (width, height) else chromaSides width height f.chromaShiftX f.chromaShiftY

/-! ## §3 Names -/

/-- The format of a name, in any case. -/
def PixelFormat.ofName? (text : String) : Option PixelFormat :=
  PixelFormat.all.find? fun f => Text.sameIgnoringCase f.name text

/-- The format asked for: that of the input, or a certain one. -/
inductive OutputFormat where
  | same
  | only (format : PixelFormat)
deriving DecidableEq, Repr

namespace OutputFormat

/-- The format for a given input. -/
def resolve (o : OutputFormat) (input : PixelFormat) : PixelFormat :=
  match o with
  | same => input
  | only format => format

/-- What is asked for in words: `same` or the name of a format. -/
def text : OutputFormat → String
  | same => "same"
  | only format => format.name

/-- Reads `same` or the name of a format, in any case. -/
def ofText? (text : String) : Option OutputFormat :=
  if Text.sameIgnoringCase "same" text then some .same
  else (PixelFormat.ofName? text).map .only

end OutputFormat

end Resample
