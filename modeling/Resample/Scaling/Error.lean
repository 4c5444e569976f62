import Resample.Kernel.Launch
import Resample.Size.Output

/-!
# Refusals of a scaler

Why a scaler cannot be configured, or a frame cannot be scaled. A refusal that passes on another one
names that as its cause.
-/

namespace Resample

/-- Why scaling is refused. -/
inductive ScaleError where
  | unsupported (source dest : PixelFormat)
  | size (inner : Size.SizeError)
  | mismatch (expected actual : Shape)
  | planeLayout (shape : Shape) (plane : Nat)
  | allocation (inner : GridError)
  | launch (plane : Nat) (kernel : String) (inner : LaunchError)
deriving DecidableEq

/-- The text for the name of a format that does not exist. -/
def unknownFormatMessage (name : String) : String := s!"unrecognized pixel format '{name}'"

namespace ScaleError

/-- The text of a refusal. -/
def message : ScaleError → String
  | unsupported source dest => s!"no kernel converts {source.name} to {dest.name}"
  | size inner => inner.message
  | mismatch expected actual =>
    s!"frame is {actual.text}, scaler was configured for {expected.text}"
  | planeLayout shape plane => shape.misfitText plane
  | allocation _ => "frame allocation failed"
  | launch plane kernel _ => s!"kernel {kernel} failed on plane {plane}"

/-- The texts of a refusal and of its causes, outermost first. -/
def messages (e : ScaleError) : List String :=
  e.message ::
    match e with
    | allocation inner => [inner.message]
    | launch _ _ inner =>
      inner.message ::
        match inner with
        | .region cause => [cause.message]
        | _ => []
    | _ => []

end ScaleError

end Resample
