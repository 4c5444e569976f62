import Resample.Picture.Frame
import Resample.Number.Decimal

/-!
# Arguments

The command line is a subcommand and its options. An option with a value is `--name value` or
`--name=value`; a value that begins with a dash needs the second form. Options stand in any order and
none stands twice. Arguments are read from the left, and the first one that is wrong or asks for help
decides.
-/

namespace Resample

/-! ## §1 Sizes -/

/-- Why a text is no size. -/
inductive SizeTextError where
  | noSeparator (text : String)
  | badWidth (text : String)
  | badHeight (text : String)
deriving DecidableEq, Repr

/-- The text of a refusal. -/
def SizeTextError.message : SizeTextError → String
  | noSeparator text => s!"expected WxH, got '{text}'"
  | badWidth text => s!"bad width in '{text}'"
  | badHeight text => s!"bad height in '{text}'"

/-- Whether a character separates width and height. -/
def isSizeSeparator (c : Char) : Bool := c = 'x' || c = 'X'

/-- Reads a width and a height with an `x` between them, and blanks around each. -/
def readSize (text : String) : Except SizeTextError (Nat × Nat) :=
  let width := text.toList.takeWhile fun c => !isSizeSeparator c
  match text.toList.dropWhile fun c => !isSizeSeparator c with
  | [] => .error (.noSeparator text)
  | _ :: height =>
    match Decimal.word? (Text.trim width), Decimal.word? (Text.trim height) with
    | none, _ => .error (.badWidth text)
    | some _, none => .error (.badHeight text)
    | some w, some h => .ok (w, h)

/-! ## §2 Commands -/

/-- Options of both subcommands. -/
structure CommonOptions where
  input : String
  out : String
  width : Option String
  height : Option String
  config : Option String
  noDither : Bool
deriving DecidableEq, Repr

/-- What the command line asks for. -/
inductive Command where
  /-- Scale an image file; `wide` asks for 16 bits or for 8. -/
  | image (options : CommonOptions) (wide : Option Bool)
  /-- Scale a file of raw frames. -/
  | raw (options : CommonOptions) (shape : Shape) (format : Option OutputFormat)
      (frames : Option Nat)
deriving DecidableEq, Repr

/-- Why there is no command: the arguments are wrong, or they ask for help. -/
inductive ArgumentError where
  | usage
  | help
deriving DecidableEq, Repr

/-! ## §3 Options -/

/-- An option: its name, and, unless it is a flag, the values it takes. -/
structure OptionSpec where
  name : String
  accepts : Option (String → Bool)

/-- Options of both subcommands. -/
def commonSpecs : List OptionSpec :=
  let path : String → Bool := fun value => !value.isEmpty
  [⟨"input", some path⟩, ⟨"out", some path⟩, ⟨"width", some fun _ => true⟩,
    ⟨"height", some fun _ => true⟩, ⟨"config", some path⟩, ⟨"no-dither", none⟩]

/-- Options of the subcommand for images. -/
def imageSpecs : List OptionSpec :=
  commonSpecs ++ [⟨"depth", some fun value => value = "8" || value = "16"⟩]

/-- Options of the subcommand for raw frames. -/
def rawSpecs : List OptionSpec :=
  commonSpecs ++
    [⟨"in-format", some fun value => (PixelFormat.ofName? value).isSome⟩,
      ⟨"size", some fun value => (readSize value).toBool⟩,
      ⟨"format", some fun value => (OutputFormat.ofText? value).isSome⟩,
      ⟨"frames", some fun value => (Decimal.word? value.toList).isSome⟩]

/-- The options found so far, by name. -/
abbrev Found := List (String × String)

/-- What an argument is. -/
inductive Argument where
  /-- `--name` or `--name=value`. -/
  | long (name : String) (value : Option String)
  /-- `--`, after which no options follow. -/
  | endOfOptions
  /-- A dash and letters. -/
  | short (letters : List Char)
  | plain

/-- Tells what an argument is. A dash alone is a plain argument. -/
def Argument.of (text : String) : Argument :=
  match text.toList with
  | ['-', '-'] => endOfOptions
  | '-' :: '-' :: rest =>
    let name := String.ofList (rest.takeWhile (· ≠ '='))
    match rest.dropWhile (· ≠ '=') with
    | [] => long name none
    | _ :: value => long name (some (String.ofList value))
  | '-' :: letter :: letters => short (letter :: letters)
  | _ => plain

/-- Notes an option with a value that it takes. -/
def note (spec : OptionSpec) (accepts : String → Bool) (value : String) (found : Found) :
    Except ArgumentError Found :=
  if accepts value && (found.lookup spec.name).isNone then .ok ((spec.name, value) :: found)
  else .error .usage

/-- Whether an argument can be the value of the option before it. -/
def isValue (text : String) : Bool :=
  match Argument.of text with
  | .plain => true
  | _ => false

/-- Reads options. -/
def readOptions (specs : List OptionSpec) (found : Found) :
    List String → Except ArgumentError Found
  | [] => .ok found
  | text :: rest =>
    match Argument.of text with
    | .plain => .error .usage
    | .endOfOptions => if rest.isEmpty then .ok found else .error .usage
    | .short letters => .error (if letters.head? = some 'h' then .help else .usage)
    | .long "help" none => .error .help
    | .long name value =>
      match specs.find? fun spec => spec.name = name with
      | none => .error .usage
      | some spec =>
        match spec.accepts, value with
        | none, some _ => .error .usage
        | none, none => do
          readOptions specs (← note spec (fun _ => true) "" found) rest
        | some accepts, some value => do
          readOptions specs (← note spec accepts value found) rest
        | some accepts, none =>
          match rest with
          | [] => .error .usage
          | value :: rest =>
            if isValue value then do
              readOptions specs (← note spec accepts value found) rest
            else .error .usage

/-! ## §4 Reading commands -/

/-- The options of both subcommands, if those that must be there are. -/
def commonOptions? (found : Found) : Option CommonOptions := do
  return { input := ← found.lookup "input"
           out := ← found.lookup "out"
           width := found.lookup "width"
           height := found.lookup "height"
           config := found.lookup "config"
           noDither := (found.lookup "no-dither").isSome }

/-- The command of the subcommand for images. -/
def imageCommand? (found : Found) : Option Command := do
  return .image (← commonOptions? found) ((found.lookup "depth").map (· = "16"))

/-- The command of the subcommand for raw frames. -/
def rawCommand? (found : Found) : Option Command := do
  let options ← commonOptions? found
  let format ← PixelFormat.ofName? (← found.lookup "in-format")
  let (width, height) ← (readSize (← found.lookup "size")).toOption
  return .raw options { format, width, height }
    ((found.lookup "format").bind OutputFormat.ofText?)
    ((found.lookup "frames").bind fun text => Decimal.word? text.toList)

/-- The names of the subcommands. -/
def subcommands : List String := ["image", "raw", "help"]

/-- Reads a command from the arguments. -/
def Command.read (arguments : List String) : Except ArgumentError Command :=
  let complete (command : Option Command) : Except ArgumentError Command :=
    match command with
    | some command => .ok command
    | none => .error .usage
  match arguments with
  | [] => .error .usage
  | "image" :: rest => do complete (imageCommand? (← readOptions imageSpecs [] rest))
  | "raw" :: rest => do complete (rawCommand? (← readOptions rawSpecs [] rest))
  | "help" :: rest =>
    match rest with
    | [] => .error .help
    | [name] => .error (if subcommands.contains name then .help else .usage)
    | _ => .error .usage
  | text :: _ =>
    match Argument.of text with
    | .long "help" none => .error .help
    | .short ('h' :: _) => .error .help
    | _ => .error .usage

end Resample
