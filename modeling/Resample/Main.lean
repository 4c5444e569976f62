import Resample.Command.Run

/-!
# The program

Reads the command line, runs the command on the files of the system and tells what failed. Image files
are not decoded here: to this storage, every image file is one that cannot be opened.
-/

namespace Resample

/-- The result of an action, or the given one if it fails. -/
def orElse {α : Type} (failed : α) (action : IO α) : IO α := do
  match ← action.toBaseIO with
  | .ok a => return a
  | .error _ => return failed

instance : Storage IO where
  entry? path := orElse none do
    let place := (← IO.currentDir) / path
    match path, (← place.metadata).type with
    | "", _ => return none
    | _, .file => return some .file
    | _, _ => return some .other
  canOpen path := orElse false <| IO.FS.withFile path .read fun _ => return true
  read? path := orElse none do return some (← IO.FS.readBinFile path).toList
  readPicture? _ := return none
  makeDirectory path := orElse false do
    IO.FS.createDirAll path
    return true
  write path bytes := orElse false do
    IO.FS.writeBinFile path ⟨bytes.toArray⟩
    return true
  writePicture _ _ := return false

/-- What is printed for a request for help, and after wrong arguments. -/
def usage : String :=
  "Usage: resample image --input <INPUT> --out <OUT> [--width <WIDTH>] [--height <HEIGHT>]\n" ++
  "                      [--config <CONFIG>] [--no-dither] [--depth <8|16>]\n" ++
  "       resample raw --input <INPUT> --out <OUT> --in-format <FORMAT> --size <WxH>\n" ++
  "                    [--width <WIDTH>] [--height <HEIGHT>] [--config <CONFIG>] [--no-dither]\n" ++
  "                    [--format <FORMAT>] [--frames <FRAMES>]"

end Resample

open Resample in
/-- Runs the command that the arguments ask for. -/
def main (arguments : List String) : IO UInt32 := do
  match Command.read arguments with
  | .error .help => IO.println usage; return 0
  | .error .usage => IO.eprintln usage; return 2
  | .ok command =>
    match ← (Command.run command : Command.Action IO Unit).run.run with
    | .ok (.ok ()) => return 0
    | .ok (.error failure) => IO.eprintln s!"Error: {failure.message}"; return 1
    | .error fault => IO.eprintln s!"Error: {fault.message}"; return 101
