import Resample.Json.Basic
import Resample.Picture.Frame

/-!
# Progress

What a scaler reports: once what it was configured to do, and then every frame that it has scaled.
-/

namespace Resample

/-- What a scaler was configured to do. -/
structure Summary where
  input : Shape
  output : Shape
  /-- Sample aspect ratio of the output. -/
  aspect : Ratio
  passthrough : Bool
  /-- Whether one of the kernels dithers. -/
  dithered : Bool
  /-- Names of the kernels in the order of their launches. -/
  kernels : List String
deriving DecidableEq, Repr

/-- A frame that was scaled. -/
structure FrameReport where
  /-- Number of frames scaled before it. -/
  index : Nat
  pts : Option Int
  passthrough : Bool
deriving DecidableEq, Repr

/-- A report to a listener. -/
inductive Event where
  | configured (summary : Summary)
  | frameDone (report : FrameReport)
deriving DecidableEq, Repr

/-- A fraction as a value. -/
def Ratio.toJson (r : Ratio) : Json := .object [("num", .integer r.num), ("den", .integer r.den)]

/-- A summary as a value. -/
def Summary.toJson (s : Summary) : Json :=
  .object [
    ("in_format", .string s.input.format.name),
    ("in_width", .natural s.input.width),
    ("in_height", .natural s.input.height),
    ("out_format", .string s.output.format.name),
    ("out_width", .natural s.output.width),
    ("out_height", .natural s.output.height),
    ("sample_aspect_ratio", s.aspect.toJson),
    ("passthrough", .bool s.passthrough),
    ("dithered", .bool s.dithered),
    ("kernels", .array (s.kernels.map .string))]

end Resample
