import Resample.Command.Arguments
import Resample.Command.Failure
import Resample.Command.Path
import Resample.Command.Storage
import Resample.Json.Printer

/-!
# Running commands

What each command does to the files, over any storage. Beside the output a command writes a
description of what it did.
-/

namespace Resample.Command

variable {m : Type → Type} [Monad m] [Storage m]

/-! ## §1 Files -/

/-- What a command does to the files. It may fail, and it may meet a request that has no answer. -/
abbrev Action (m : Type → Type) := ExceptT Failure (ExceptT Fault m)

/-- Goes on if a step succeeded. -/
def ensure (done : m Bool) (failure : Failure) : Action m Unit := do
  if ¬ (← done) then throw failure

/-- Goes on with what a step found. -/
def require {α : Type} (found : m (Option α)) (failure : Failure) : Action m α := do
  match ← found with
  | some a => return a
  | none => throw failure

/-- Goes on if there is a file at a path. -/
def requireFile (role : FileRole) (path : String) : Action m Unit := do
  match ← (Storage.entry? path : m (Option Entry)) with
  | some .file => return
  | some .other => throw (.notAFile role path)
  | none => throw (.missingFile role path)

/-- Makes the directory that a file is to be written into. -/
def makeParent (path : String) : Action m Unit := do
  match Path.directory? path with
  | some directory => ensure (Storage.makeDirectory directory) (.makeDirectory directory)
  | none => return

/-- Writes the description of a command's output. -/
def writeMeta (out : String) (description : Json) : Action m Unit := do
  let path := Path.metaPath out
  ensure (Storage.write path description.print.toUTF8.toList) (.writeMeta path)

/-! ## §2 Options -/

/-- Reads the scaling options of a file. -/
def readConfig (path : String) : Action m Config := do
  requireFile .config path
  let bytes ← require (Storage.read? path) (.readConfig path)
  match String.fromUTF8? ⟨bytes.toArray⟩ >>= Config.ofText? with
  | some config => return config
  | none => throw (.parseConfig path)

/-- The scaling options of a command: those of its file, or the default, with what the command line
gives in their place. -/
def configOf (options : CommonOptions) : Action m Config := do
  let config ← match options.config with
    | some path => readConfig path
    | none => pure Config.identity
  return { config with
    width := options.width.getD config.width
    height := options.height.getD config.height
    dither := config.dither && !options.noDither }

/-- What the descriptions of both commands have in common. -/
def description (options : CommonOptions) (config : Config) (scaler : Scaler) :
    List (String × Json) :=
  [("input", .string options.input), ("output", .string options.out),
    ("config", config.toJson), ("summary", scaler.summary.toJson)]

/-! ## §3 Images -/

/-- Opens an image file. -/
def openPicture (path : String) : Action m Frame := do
  let failure := Failure.openPicture path
  let extension := Path.extension? path
  if ¬ imageExtensions.any fun known => extension = some known then throw failure
  let picture ← require (Storage.readPicture? path) failure
  match picture.toFrame with
  | .ok frame => return frame
  | .error inner => throw (.badPicture path inner)

/-- Saves a frame as an image file. A file of a kind that is known, but cannot be written, is left
empty. -/
def savePicture (path : String) (frame : Frame) : Action m Unit := do
  match Picture.ofFrame? frame with
  | none => throw (.unsavable frame.shape.format)
  | some picture =>
    let failure := Failure.savePicture path
    let extension := Path.extension? path
    if imageExtensions.any fun known => extension = some known then
      ensure (Storage.writePicture path picture) failure
    else
      if otherImageExtensions.any fun known => extension = some known then
        ensure (Storage.write path []) failure
      throw failure

/-- Scales an image file. -/
def runImage (options : CommonOptions) (wide : Option Bool) : Action m Unit := do
  requireFile .input options.input
  let frame ← openPicture options.input
  let config ← configOf options
  let config ← match wide with
    | none => pure config
    | some wide =>
      match packedWithDepth? frame.shape.format wide with
      | some format => pure { config with format := .only format }
      | none => throw (.noCounterpart frame.shape.format wide)
  match Scaler.configure config ⟨frame.shape, .unknown⟩ with
  | .error inner => throw (.configurePicture options.input inner)
  | .ok scaler =>
    match scaler.withListener.process frame with
    | (.error inner, _) => throw (.scalePicture options.input inner)
    | (.ok result, scaler) =>
      makeParent options.out
      savePicture options.out result
      writeMeta options.out (.object (description options config scaler))

/-! ## §4 Raw frames -/

/-- Scales a file of raw frames. What was written before a failure stays. The output is emptied before
the input is read, so a file that is both is too short. -/
def runRaw (options : CommonOptions) (shape : Shape) (format : Option OutputFormat)
    (frames : Option Nat) : Action m Unit := do
  requireFile .input options.input
  let config ← configOf options
  let config := { config with format := format.getD config.format }
  match Scaler.configure config ⟨shape, .unknown⟩ with
  | .error inner => throw (.configureRaw inner)
  | .ok scaler =>
    ensure (Storage.canOpen options.input) (.openFile options.input)
    makeParent options.out
    ensure (Storage.write options.out []) (.create options.out)
    let bytes ← require (Storage.read? options.input) (.openFile options.input)
    match RawRun.start scaler.withListener frames [.data bytes] with
    | .error fault => throwThe Fault fault
    | .ok run =>
      ensure (Storage.write options.out run.output) (.create options.out)
      match run.stopped with
      | some inner => throw (.raw inner)
      | none =>
        writeMeta options.out <| .object <| description options config run.scaler ++
          [("frames", .natural run.frames), ("in_frame_bytes", .natural shape.byteCount),
            ("out_frame_bytes", .natural run.scaler.output.shape.byteCount)]

/-- Runs a command. -/
def run : Command → Action m Unit
  | image options wide => runImage options wide
  | raw options shape format frames => runRaw options shape format frames

end Resample.Command
