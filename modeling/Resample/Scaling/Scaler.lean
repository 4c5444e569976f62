import Resample.Scaling.Config
import Resample.Scaling.Error
import Resample.Scaling.Progress
import Resample.Scaling.Route

/-!
# Scalers

A scaler brings the frames of a stream to another size and format. Everything that does not depend on
the samples is settled when it is configured; scaling a frame only launches the kernels. Frames that
are handed back are kept for reuse: a frame from the pool is written over, so what it held before must
not be seen.

## Contents

- §1 configuration, §2 the pool, §3 scaling a frame
-/

namespace Resample

/-! ## §1 Configuration -/

/-- One launch per frame: a kernel with the planes it reads and writes, and their sides. -/
structure Job where
  kernel : Kernel
  sourcePlane : Nat
  destPlane : Nat
  sourceSides : Nat × Nat
  destSides : Nat × Nat

/-- A configured scaler with the frames it keeps and the reports it made. -/
structure Scaler where
  input : Stream
  output : Stream
  mode : AddressMode
  jobs : List Job
  passthrough : Bool
  /-- Whether the dither table is at hand. -/
  table : Bool
  /-- Frames for reuse, the last one handed back first. -/
  pool : List Frame
  /-- What the listener has heard so far, if there is one, the last report first. -/
  heard : Option (List Event)
  /-- Number of frames scaled. -/
  count : Nat

namespace Scaler

/-- Number of frames that are kept for reuse. -/
def poolSize : Nat := 2

/-- The sample aspect ratio that keeps the display aspect ratio when the sides change. -/
def rescaleAspect (aspect : Ratio) (input output : Nat × Nat) : Ratio :=
  if aspect.isUnknown then .unknown
  else
    aspect.mul (Ratio.reduce (Word.signed (output.2 * input.1)) (Word.signed (output.1 * input.2)))

/-- The launches from one shape to another, if the formats can be converted. -/
def jobsFor? (source dest : Shape) (dither : Bool) : Option (List Job) := do
  let routes ← Route.between? source.format.layout dest.format.layout
  routes.mapM fun r => do
    let kernel ← Kernel.select? (r.variant source.format dest.format dither)
    return { kernel
             sourcePlane := r.sourcePlane
             destPlane := r.destPlane
             sourceSides := source.planeSides r.sourcePlane
             destSides := dest.planeSides r.destPlane }

/-- The scaler for an input and options. -/
def configure (config : Config) (input : Stream) : Except ScaleError Scaler := do
  let shape := input.shape
  if shape.width = 0 ∨ shape.height = 0 then
    throw (.size (.invalid (Word.signed shape.width) (Word.signed shape.height)))
  let format := config.format.resolve shape.format
  let (width, height) ←
    (Size.outputSize config.width config.height input format).mapError .size
  let outShape : Shape := { format, width, height }
  -- bits are lost where the format has fewer of them, whatever the containers are
  let dither := config.dither && format.bits < shape.format.bits
  match jobsFor? shape outShape dither with
  | none => throw (.unsupported shape.format format)
  | some jobs =>
    return { input
             output :=
               { shape := outShape
                 aspect := rescaleAspect input.aspect (shape.width, shape.height) (width, height) }
             mode := config.mode
             jobs
             passthrough := config.passthrough && outShape = shape
             table := dither
             pool := []
             heard := none
             count := 0 }

/-- What the scaler was configured to do. -/
def summary (s : Scaler) : Summary where
  input := s.input.shape
  output := s.output.shape
  aspect := s.output.aspect
  passthrough := s.passthrough
  dithered := s.jobs.any fun job => job.kernel.variant.dither
  kernels := s.jobs.map fun job => job.kernel.name

/-- The scaler with a listener, which hears of the configuration at once. -/
def withListener (s : Scaler) : Scaler := { s with heard := some [.configured s.summary] }

/-- What the listener has heard so far, in order; nothing if there is none. -/
def events (s : Scaler) : List Event := (s.heard.getD []).reverse

/-! ## §2 The pool -/

/-- Hands a frame back for reuse. Frames of another shape, and those for which there is no room, are
dropped. -/
def recycle (s : Scaler) (frame : Frame) : Scaler :=
  if frame.shape = s.output.shape ∧ s.pool.length < poolSize then
    { s with pool := frame :: s.pool }
  else s

/-- A frame to write into: one from the pool, or a new one. -/
def takeFrame (s : Scaler) : Except ScaleError (Frame × Scaler) :=
  match s.pool with
  | frame :: pool => .ok (frame, { s with pool })
  | [] => (Frame.zeros s.output.shape).mapError .allocation |>.map fun frame => (frame, s)

/-! ## §3 Scaling a frame -/

/-- A frame that was written into, as far as it went, and what stopped it, if anything did. -/
structure Attempt where
  frame : Frame
  stopped : Option ScaleError

/-- Launches one kernel from a frame into another one. -/
def launchJob (s : Scaler) (source dest : Frame) (job : Job) : Except ScaleError Frame :=
  match source.plane? job.sourcePlane, dest.plane? job.destPlane with
  | none, _ => .error (.planeLayout source.shape job.sourcePlane)
  | some _, none => .error (.planeLayout source.shape job.destPlane)
  | some read, some written =>
    let request : Request :=
      { sourceWidth := job.sourceSides.1
        sourceHeight := job.sourceSides.2
        destWidth := job.destSides.1
        destHeight := job.destSides.2
        mode := s.mode
        table := s.table }
    match job.kernel.launch read.view written.view request with
    | .error inner => .error (.launch job.destPlane job.kernel.name inner)
    | .ok data => .ok (dest.setPlane job.destPlane (written.withData data))

/-- Launches kernels in their order, until one is refused. -/
def launchJobs (s : Scaler) (source : Frame) : Frame → List Job → Attempt
  | dest, [] => ⟨dest, none⟩
  | dest, job :: jobs =>
    match s.launchJob source dest job with
    | .ok written => s.launchJobs source written jobs
    | .error e => ⟨dest, some e⟩

/-- A frame with the samples of a raster copied into its plane `i`, if they fit. -/
def copyPlane? (dest : Frame) (raster : Raster) (i : Nat) : Option Frame := do
  let old ← dest.plane? i
  let copied ← (old.copyFrom raster).toOption
  return dest.setPlane i copied

/-- Copies numbered planes into the planes of a frame, until one does not fit. -/
def copyPlanes : Frame → List (Raster × Nat) → Attempt
  | dest, [] => ⟨dest, none⟩
  | dest, (raster, i) :: rasters =>
    match copyPlane? dest raster i with
    | some copied => copyPlanes copied rasters
    | none => ⟨dest, some (.planeLayout dest.shape i)⟩

/-- Writes all planes of a frame from a frame of the input. -/
def writePlanes (s : Scaler) (source dest : Frame) : Attempt :=
  if s.passthrough then copyPlanes dest source.planes.zipIdx
  else s.launchJobs source dest s.jobs

/-- The scaler after a frame was scaled. -/
def report (s : Scaler) (pts : Option Int) : Scaler :=
  let event := Event.frameDone { index := s.count, pts, passthrough := s.passthrough }
  { s with
    heard := s.heard.map fun earlier => event :: earlier
    count := s.count + 1 }

/-- Scales one frame. The result has the presentation time of the frame, and its sample aspect ratio
adjusted to the new sides. -/
def process (s : Scaler) (frame : Frame) : Except ScaleError Frame × Scaler :=
  if frame.shape ≠ s.input.shape then (.error (.mismatch s.input.shape frame.shape), s)
  else
    match s.takeFrame with
    | .error e => (.error e, s)
    | .ok (dest, s) =>
      let attempt := s.writePlanes frame dest
      match attempt.stopped with
      -- the samples of a frame in the pool do not matter, so one that was written in part goes back
      | some e => (.error e, s.recycle attempt.frame)
      | none =>
        let input := s.input.shape
        let output := s.output.shape
        let aspect :=
          rescaleAspect frame.aspect (input.width, input.height) (output.width, output.height)
        (.ok { attempt.frame with pts := frame.pts, aspect }, s.report frame.pts)

end Scaler

end Resample
