import Resample.Picture.Frame
import Resample.Size.Expr

/-!
# Output sizes

Width and height of the output are given by an expression each. Each may refer to the other, so the
width is evaluated first, as far as that is possible, then the height, then the width again.

A value of zero keeps the side of the input. A value of `-n` derives the side from the other one, so
that the aspect ratio of the input is kept, as the nearest multiple of `n`. Two negative values keep
both sides.
-/

namespace Resample.Size

/-! ## §1 Variables -/

/-- Sample aspect ratio as a value; one if it is not known. -/
def aspectValue (r : Ratio) : Double :=
  if r.isUnknown then Binary.ofNat 1 else Binary.ofInt r.num / Binary.ofInt r.den

/-- The variables of size expressions for an input, an output format, and the output sides as far as
they are known. -/
def environment (input : Stream) (output : PixelFormat) (outWidth outHeight : Double) : Environment :=
  let shape := input.shape
  let inWidth : Double := Binary.ofNat shape.width
  let inHeight : Double := Binary.ofNat shape.height
  let aspect := inWidth / inHeight
  let sampleAspect := aspectValue input.aspect
  fun
  | "iw" | "in_w" => some inWidth
  | "ih" | "in_h" => some inHeight
  | "ow" | "out_w" => some outWidth
  | "oh" | "out_h" => some outHeight
  | "a" => some aspect
  | "sar" => some sampleAspect
  | "dar" => some (aspect * sampleAspect)
  | "hsub" => some (Binary.ofNat (1 <<< shape.format.chromaShiftX))
  | "vsub" => some (Binary.ofNat (1 <<< shape.format.chromaShiftY))
  | "ohsub" => some (Binary.ofNat (1 <<< output.chromaShiftX))
  | "ovsub" => some (Binary.ofNat (1 <<< output.chromaShiftY))
  | _ => none

/-! ## §2 Refusals -/

/-- Why there is no output size. -/
inductive SizeError where
  | expression (text : String) (reason : ExprError)
  | invalid (width height : Int)
  | tooLarge (width height : Int) (inWidth inHeight : Nat)
deriving DecidableEq, Repr

/-- The text of a refusal. -/
def SizeError.message : SizeError → String
  | expression text reason => s!"invalid dimension expression '{text}': {reason.message}"
  | invalid width height => s!"invalid output size {width}x{height}"
  | tooLarge width height inWidth inHeight =>
    s!"rescaled value for width or height is too big ({width}x{height} from {inWidth}x{inHeight})"

/-! ## §3 Sides -/

/-- `a * b / c` to the nearest integer, halves towards the sign of `c`; zero if `c` is. -/
def rescale (a b c : Int) : Int :=
  if c = 0 then 0 else (a * b + c.tdiv 2).tdiv c

/-- The multiple that a negative value asks for. -/
def multiple (value : Int) : Int := if value < -1 then -value else 1

/-- The sides for two values; a negative one is derived from the other. -/
def derive (width height inWidth inHeight : Int) : Int × Int :=
  let (w, h) := if width < 0 ∧ height < 0 then (inWidth, inHeight) else (width, height)
  let w := if w < 0 then rescale h inWidth (inHeight * multiple width) * multiple width else w
  let h := if h < 0 then rescale w inHeight (inWidth * multiple height) * multiple height else h
  (w, h)

/-- Products of a side of the output and the other side of the input are at most this. -/
def productLimit : Int := 0x7FFFFFFF

/-- The output size for two values, if it is positive and not too large. Sides are words, so of a longer one
the low bits are left. -/
def resolve (width height inWidth inHeight : Int) : Except SizeError (Nat × Nat) :=
  let (w, h) := derive width height inWidth inHeight
  if w ≤ 0 ∨ h ≤ 0 then .error (.invalid (Word.saturate w) (Word.saturate h))
  else if productLimit < h * inWidth ∨ productLimit < w * inHeight then
    .error (.tooLarge (Word.saturate w) (Word.saturate h) (Word.unsigned inWidth)
      (Word.unsigned inHeight))
  else .ok (Word.unsigned w, Word.unsigned h)

/-- A value, or the side of the input if it is zero. -/
def orInput (value : Int) (side : Nat) : Int := if value = 0 then Word.signed side else value

/-- The output size that two expressions give for an input and an output format. -/
def outputSize (widthText heightText : String) (input : Stream) (output : PixelFormat) :
    Except SizeError (Nat × Nat) := do
  let valueOf (text : String) (outWidth outHeight : Double) : Except SizeError Int :=
    (evaluate (environment input output outWidth outHeight) text).mapError (.expression text)
  let side (value : Int) : Double := Binary.ofInt value
  -- the width is read first for the height's sake only, so that it may fail here
  let firstWidth := match valueOf widthText .nan .nan with
    | .ok value => side (orInput value input.shape.width)
    | .error _ => .nan
  let height := orInput (← valueOf heightText firstWidth .nan) input.shape.height
  let width := orInput (← valueOf widthText firstWidth (side height)) input.shape.width
  resolve width height (Word.signed input.shape.width) (Word.signed input.shape.height)

end Resample.Size
