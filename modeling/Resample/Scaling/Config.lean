import Resample.Grid.Address
import Resample.Json.Reader
import Resample.Picture.Format

/-!
# Scaling options

What a scaler is asked to do. Options are read from a JSON object, or from an array that gives them in
order; what is missing takes its default. An unknown option, one given twice and one of the wrong kind
are refused.
-/

namespace Resample

/-- Options of a scaler. -/
structure Config where
  /-- Expression for the width of the output. -/
  width : String
  /-- Expression for the height of the output. -/
  height : String
  format : OutputFormat
  /-- Whether to dither where the output has fewer bits than the input. -/
  dither : Bool
  mode : AddressMode
  /-- Whether frames are copied where format and size stay the same. -/
  passthrough : Bool
deriving DecidableEq, Repr

namespace Config

/-- The options that change nothing. -/
def identity : Config where
  width := "iw"
  height := "ih"
  format := .same
  dither := true
  mode := .clamp
  passthrough := true

/-! ## §1 Reading -/

/-- Reads an address mode: a word, or an object with one member, in which a border has its value and
the other modes have none. -/
def modeOf? : Json → Option AddressMode
  | .string "clamp" => some .clamp
  | .string "mirror" => some .mirror
  | .object [("clamp", .null)] => some .clamp
  | .object [("mirror", .null)] => some .mirror
  | .object [("border", .integer value)] =>
    if 0 ≤ value ∧ value.toNat ≤ Depth.sixteen.top then
      some (.border (Sample.saturate .sixteen value.toNat))
    else none
  | _ => none

/-- The names of the options, in their order. -/
def keys : List String := ["width", "height", "format", "dither", "address_mode", "passthrough"]

/-- Options with one of them read from a value. -/
def set? (config : Config) (key : String) (value : Json) : Option Config :=
  match key, value with
  | "width", .string text => some { config with width := text }
  | "height", .string text => some { config with height := text }
  | "format", .string text => (OutputFormat.ofText? text).map fun format => { config with format }
  | "dither", .bool dither => some { config with dither }
  | "address_mode", value => (modeOf? value).map fun mode => { config with mode }
  | "passthrough", .bool passthrough => some { config with passthrough }
  | _, _ => none

/-- Reads options one after another into given ones. -/
def setAll? (config : Config) (members : List (String × Json)) : Option Config :=
  members.foldlM (fun config (key, value) => config.set? key value) config

/-- Reads options from a value. -/
def ofJson? : Json → Option Config
  | .object members =>
    if (members.map Prod.fst).Nodup then identity.setAll? members else none
  | .array items =>
    if items.length ≤ keys.length then identity.setAll? (keys.zip items) else none
  | _ => none

/-- Reads options from a text. -/
def ofText? (text : String) : Option Config := Json.read? text >>= ofJson?

/-! ## §2 Writing -/

/-- An address mode as a value. -/
def modeJson : AddressMode → Json
  | .clamp => .string "clamp"
  | .mirror => .string "mirror"
  | .border value => .object [("border", .natural value.val)]

/-- Options as an object. -/
def toJson (config : Config) : Json :=
  .object [("width", .string config.width), ("height", .string config.height),
    ("format", .string config.format.text), ("dither", .bool config.dither),
    ("address_mode", modeJson config.mode), ("passthrough", .bool config.passthrough)]

end Config

end Resample
