import Resample.Picture.Frame

/-!
# Raw frames

A raw frame is its planes in order, each its rows from the top down, without padding. Samples of 16
bits are two bytes, the low one first.
-/

namespace Resample

/-! ## §1 Samples -/

/-- Bytes of a sample. -/
def Sample.toBytes {d : Depth} (s : Sample d) : List UInt8 :=
  match d with
  | .eight => [UInt8.ofNat s.val]
  | .sixteen => [UInt8.ofNat (s.val % 256), UInt8.ofNat (s.val / 256)]

/-- Samples of 16 bits from their bytes. A byte without its partner is dropped. -/
def wideSamples : List UInt8 → List (Sample .sixteen)
  | low :: high :: rest => Sample.truncate .sixteen (low.toNat + 256 * high.toNat) :: wideSamples rest
  | _ => []

/-- Samples from their bytes. -/
def Sample.ofBytes (d : Depth) (bytes : List UInt8) : List (Sample d) :=
  match d with
  | .eight => bytes.map fun b => Sample.truncate .eight b.toNat
  | .sixteen => wideSamples bytes

/-! ## §2 Frames -/

namespace Shape

/-- Samples of plane `i`. -/
def planeSamples (s : Shape) (i : Nat) : Nat :=
  let (width, height) := s.planeSides i
  width * height * s.format.planeChannels i

/-- Bytes of plane `i`. -/
def planeBytes (s : Shape) (i : Nat) : Nat := s.planeSamples i * s.format.container.bytes

/-- Bytes of a frame. -/
def byteCount (s : Shape) : Nat :=
  (List.range s.format.planeCount).foldr (fun i rest => s.planeBytes i + rest) 0

/-- Refuses shapes whose frames have more bytes than a word counts. -/
def checkBytes (s : Shape) : Except Fault Unit :=
  if Word.top < s.byteCount then .error .sizeOverflow else .ok ()

end Shape

/-- Why bytes are no frame. -/
inductive RawError where
  | length (shape : Shape) (actual : Nat)
  | plane (inner : GridError)
  | misfit (shape : Shape) (plane : Nat)
deriving DecidableEq, Repr

/-- The text of a refusal. -/
def RawError.message : RawError → String
  | length shape actual =>
    s!"raw {shape.format.name} {shape.width}x{shape.height} frame needs {shape.byteCount} bytes, got {actual}."
  | plane inner => inner.message
  | misfit shape i => shape.misfitText i

namespace Frame

/-- Plane `i` of a shape from its bytes. -/
def planeOfBytes (shape : Shape) (i : Nat) (bytes : List UInt8) : Except GridError Raster := do
  let (width, height) := shape.planeSides i
  let depth := shape.format.container
  let samples := (Sample.ofBytes depth bytes).toArray
  return ⟨depth, ← Plane.ofArray width height (shape.format.planeChannels i) samples⟩

/-- Planes of a shape, one after another, from the bytes that follow each other. -/
def planesOfBytes (shape : Shape) : List Nat → List UInt8 → Except GridError (List Raster)
  | [], _ => .ok []
  | i :: rest, bytes => do
    let first ← planeOfBytes shape i (bytes.take (shape.planeBytes i))
    let others ← planesOfBytes shape rest (bytes.drop (shape.planeBytes i))
    return first :: others

/-- The frame of a shape that bytes stand for. -/
def ofBytes (shape : Shape) (bytes : List UInt8) : Except RawError Frame := do
  if bytes.length ≠ shape.byteCount then throw (.length shape bytes.length)
  let planes ← (planesOfBytes shape (List.range shape.format.planeCount) bytes).mapError .plane
  (Frame.ofPlanes shape planes).mapError (.misfit shape)

/-- The bytes of a frame. -/
def toBytes (f : Frame) : List UInt8 :=
  f.planes.flatMap fun r => r.plane.samples.toList.flatMap Sample.toBytes

end Frame

end Resample
