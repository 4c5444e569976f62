import Resample.Raw.Codec
import Resample.Raw.Reading
import Resample.Scaling.Scaler

/-!
# Scaling raw frames

Reads raw frames one after another, scales each and writes the results one after another. It ends with
the source or after a number of frames. Bytes at the end that are no whole frame are dropped, but a
source without a whole frame is refused. The bytes of one frame are held in a buffer, and no buffer has
more bytes than the greatest signed word.
-/

namespace Resample

/-- What stops the scaling of raw frames. -/
inductive RawFailure where
  | tooShort (shape : Shape) (actual : Nat)
  | reading (frame : Nat)
  | decoding (frame : Nat) (inner : RawError)
  | scaling (frame : Nat) (inner : ScaleError)
deriving DecidableEq

/-- The texts of a failure and of its causes, outermost first. A cause that this library does not word
is `...`. -/
def RawFailure.messages : RawFailure → List String
  | tooShort shape actual =>
    [s!"input holds {actual} bytes, one {shape.format.name} {shape.width}x{shape.height} frame needs {shape.byteCount}."]
  | reading frame => [s!"reading frame {frame}", "..."]
  | decoding frame inner => [s!"decoding frame {frame}", inner.message]
  | scaling frame inner => s!"scaling frame {frame}" :: inner.messages

/-- How far the scaling of raw frames got. -/
structure RawRun where
  scaler : Scaler
  /-- Number of frames written. -/
  frames : Nat
  /-- The bytes of each frame written, those of the last one first. -/
  written : List (List UInt8)
  stopped : Option RawFailure

namespace RawRun

/-- Whether another frame may be written. -/
def below (frames : Nat) : Option Nat → Bool
  | none => true
  | some limit => frames < limit

/-- Scales the frame that bytes stand for and writes the result. -/
def step (run : RawRun) (bytes : List UInt8) : RawRun :=
  match Frame.ofBytes run.scaler.input.shape bytes with
  | .error inner => { run with stopped := some (.decoding run.frames inner) }
  | .ok frame =>
    match run.scaler.process { frame with pts := some run.frames } with
    | (.error inner, scaler) => { run with scaler, stopped := some (.scaling run.frames inner) }
    | (.ok result, scaler) =>
      -- the result was written, so its frame can be used for the next one
      { scaler := scaler.recycle result
        frames := run.frames + 1
        written := result.toBytes :: run.written
        stopped := none }

/-- Scales frames of `wanted` bytes until the source ends, the limit is reached or something stops
it. -/
def advance (run : RawRun) (shape : Shape) (wanted : Nat) (limit : Option Nat)
    (events : List ReadEvent) : RawRun :=
  if run.stopped.isSome || !below run.frames limit then run
  else
    let filling := ReadEvent.fill wanted events
    if filling.failed then { run with stopped := some (.reading run.frames) }
    -- the source has ended within a frame, or before one
    else if filling.bytes.length < wanted then
      if run.frames = 0 then { run with stopped := some (.tooShort shape filling.bytes.length) }
      else run
    else if _hnone : filling.bytes.length = 0 then run
    else (run.step filling.bytes).advance shape wanted limit filling.rest
termination_by ReadEvent.totalWeight events
decreasing_by
  have hsome : (ReadEvent.fill wanted events).bytes.length ≠ 0 := _hnone
  have hless := ReadEvent.totalWeight_fill_le wanted events
  show ReadEvent.totalWeight (ReadEvent.fill wanted events).rest < ReadEvent.totalWeight events
  omega

/-- Scales the raw frames of a source, if a buffer can hold one of them. -/
def start (scaler : Scaler) (limit : Option Nat) (events : List ReadEvent) : Except Fault RawRun :=
  let shape := scaler.input.shape
  if Word.greatest < shape.byteCount then .error .sizeOverflow
  else
    .ok (RawRun.advance { scaler, frames := 0, written := [], stopped := none }
      shape shape.byteCount limit events)

/-- All bytes written, in order. -/
def output (run : RawRun) : List UInt8 := run.written.reverse.flatten

end RawRun

end Resample
