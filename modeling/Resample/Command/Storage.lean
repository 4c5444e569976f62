import Resample.Command.Picture

/-!
# Storage

What commands ask of the files that they read and write, and the kinds of image files that are known.
-/

namespace Resample

/-- What stands at a path: a file, or something else, such as a directory. -/
inductive Entry where
  | file
  | other
deriving DecidableEq, Repr

/-- Access to files from a monad. What cannot be done gives `none` or `false`. -/
class Storage (m : Type → Type) where
  entry? : String → m (Option Entry)
  /-- Whether a file can be opened for reading. -/
  canOpen : String → m Bool
  /-- The bytes of a file. -/
  read? : String → m (Option (List UInt8))
  /-- The picture in an image file. -/
  readPicture? : String → m (Option Picture)
  /-- Makes a directory and those above it, as far as they are not there. -/
  makeDirectory : String → m Bool
  /-- Writes a file anew. -/
  write : String → List UInt8 → m Bool
  /-- Writes an image file anew. -/
  writePicture : String → Picture → m Bool

/-- Extensions of the image files that can be read and written. -/
def imageExtensions : List String := ["png", "apng"]

/-- Extensions of image files that are known, but cannot be written. -/
def otherImageExtensions : List String :=
  ["avif", "jpg", "jpeg", "jfif", "gif", "webp", "tif", "tiff", "tga", "dds", "bmp", "ico", "hdr",
    "exr", "pbm", "pam", "ppm", "pgm", "pnm", "ff", "qoi"]

end Resample
