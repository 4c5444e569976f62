import Resample.Grid.Plane
import Resample.Number.Ratio
import Resample.Picture.Format

/-!
# Frames

A frame is a picture: its planes, and the properties that it carries from input to output. The planes
of a frame are made for its shape, but they can be replaced one by one; `Frame.Conforms` says when
they still have the geometry that the shape asks for.
-/

namespace Resample

/-! ## §1 Shapes -/

/-- Format and sides of a picture. -/
structure Shape where
  format : PixelFormat
  width : Nat
  height : Nat
deriving DecidableEq, Repr

namespace Shape

/-- A shape in words. -/
def text (s : Shape) : String := s!"{s.format.name} {s.width}x{s.height}"

/-- The complaint that plane `i` is not what the shape asks for. -/
def misfitText (s : Shape) (i : Nat) : String :=
  s!"plane {i} does not fit {s.format.name} at {s.width}x{s.height}"

/-- Sides of plane `i`. -/
def planeSides (s : Shape) (i : Nat) : Nat × Nat := s.format.planeSides i s.width s.height

/-- Whether a raster has the geometry and the depth of plane `i`. -/
def PlaneFits (s : Shape) (i : Nat) (r : Raster) : Prop :=
  (r.plane.width, r.plane.height) = s.planeSides i ∧
    r.plane.channels = s.format.planeChannels i ∧ r.depth = s.format.container

instance (s : Shape) (i : Nat) (r : Raster) : Decidable (s.PlaneFits i r) :=
  inferInstanceAs (Decidable (_ ∧ _))

/-- Whether a list of rasters is the planes of a picture of this shape. -/
def Fits (s : Shape) (planes : List Raster) : Prop :=
  planes.length = s.format.planeCount ∧ ∀ entry ∈ planes.zipIdx, s.PlaneFits entry.2 entry.1

instance (s : Shape) (planes : List Raster) : Decidable (s.Fits planes) :=
  inferInstanceAs (Decidable (_ ∧ _))

end Shape

/-- What the frames of a stream have in common. -/
structure Stream where
  shape : Shape
  aspect : Ratio
deriving DecidableEq, Repr

/-! ## §2 Frames -/

/-- A picture with its presentation time and the aspect ratio of its pixels. -/
structure Frame where
  shape : Shape
  planes : List Raster
  pts : Option Int
  aspect : Ratio
deriving DecidableEq

namespace Frame

/-- Whether the planes have the geometry and the depth that the shape asks for. -/
def Conforms (f : Frame) : Prop := f.shape.Fits f.planes

instance (f : Frame) : Decidable f.Conforms := inferInstanceAs (Decidable (f.shape.Fits f.planes))

/-- The frame of a shape with all samples zero. -/
def zeros (shape : Shape) : Except GridError Frame := do
  let planes ← (List.range shape.format.planeCount).mapM fun i =>
    let (width, height) := shape.planeSides i
    Raster.zeros shape.format.container width height (shape.format.planeChannels i)
  return { shape, planes, pts := none, aspect := .unknown }

/-- The number of the first plane that does not fit the shape; the number of planes if that is
wrong. -/
def misfit? (shape : Shape) (planes : List Raster) : Option Nat :=
  if planes.length ≠ shape.format.planeCount then some planes.length
  else (planes.zipIdx.find? fun (r, i) => ¬ shape.PlaneFits i r).map Prod.snd

/-- The frame of the given planes, or the number of the plane that does not fit. -/
def ofPlanes (shape : Shape) (planes : List Raster) : Except Nat Frame :=
  match misfit? shape planes with
  | some i => .error i
  | none => .ok { shape, planes, pts := none, aspect := .unknown }

/-- Plane `i`. -/
def plane? (f : Frame) (i : Nat) : Option Raster := f.planes[i]?

/-- The frame with another plane `i`, of any geometry. -/
def setPlane (f : Frame) (i : Nat) (r : Raster) : Frame :=
  { f with planes := f.planes.set i r }

/-- The visible samples of every plane, row after row. -/
def visible (f : Frame) : List (Array Nat) :=
  f.planes.map fun r => r.plane.samples.map Fin.val

end Frame

end Resample
