import Resample.Raw.Run

/-!
# Failures of a command

Why a command did not do what it was asked for, with what it was doing at the time.
-/

namespace Resample

/-- What a file is needed for. -/
inductive FileRole where
  | input
  | config
deriving DecidableEq, Repr

/-- The role in words. -/
def FileRole.text : FileRole → String
  | input => "input"
  | config => "config"

/-- Why a command failed. -/
inductive Failure where
  | missingFile (role : FileRole) (path : String)
  | notAFile (role : FileRole) (path : String)
  | openFile (path : String)
  | openPicture (path : String)
  | badPicture (path : String) (inner : RawError)
  | readConfig (path : String)
  | parseConfig (path : String)
  | noCounterpart (format : PixelFormat) (wide : Bool)
  | configurePicture (path : String) (inner : ScaleError)
  | scalePicture (path : String) (inner : ScaleError)
  | unsavable (format : PixelFormat)
  | savePicture (path : String)
  | configureRaw (inner : ScaleError)
  | makeDirectory (path : String)
  | create (path : String)
  | raw (inner : RawFailure)
  | writeMeta (path : String)
deriving DecidableEq

namespace Failure

/-- A cause that this library does not word. -/
def elsewhere : String := "..."

/-- The texts of a failure and of its causes, outermost first. -/
def messages : Failure → List String
  | missingFile role path => [s!"{role.text} file does not exist: {path}"]
  | notAFile role path => [s!"{role.text} path is not a file: {path}"]
  | openFile path => [s!"opening {path}", elsewhere]
  | openPicture path => [s!"opening input image {path}", elsewhere]
  | badPicture path inner => [s!"building frame from {path}", inner.message]
  | readConfig path => [s!"reading scaler config at {path}", s!"reading {path}", elsewhere]
  | parseConfig path => [s!"reading scaler config at {path}", s!"parsing json {path}", elsewhere]
  | noCounterpart format wide =>
    [s!"no {if wide then 16 else 8}-bit counterpart for {format.name}."]
  | configurePicture path inner => s!"configuring scaler for {path}" :: inner.messages
  | scalePicture path inner => s!"scaling {path}" :: inner.messages
  | unsavable format => [s!"cannot save {format.name} frames as an image."]
  | savePicture path => [s!"saving image {path}", elsewhere]
  | configureRaw inner => "configuring raw scaler" :: inner.messages
  | makeDirectory path => [s!"creating output directory {path}", elsewhere]
  | create path => [s!"creating {path}", elsewhere]
  | raw inner => inner.messages
  | writeMeta path => [s!"writing json {path}", elsewhere]

/-- A failure with all its causes in one line. -/
def message (f : Failure) : String := ": ".intercalate f.messages

end Failure

end Resample
