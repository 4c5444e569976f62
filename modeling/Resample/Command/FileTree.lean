import Resample.Command.Storage

/-!
# File trees

A storage that is a value: all files and directories from the root directory on, with the directory
that commands run in. A path is followed name by name. Every name but the last has to lead to a
directory, and `..` leads to the directory above, also above the one that commands run in.

## Contents

- §1 trees, §2 what paths stand for, §3 the storage
-/

namespace Resample

/-! ## §1 Trees -/

/-- What a file holds. Of the bytes of an image file only the signature is kept. -/
inductive Contents where
  | bytes (bytes : List UInt8)
  | picture (picture : Picture)
deriving DecidableEq, Repr

/-- A file, a directory, or a device, which takes what is written and keeps nothing. -/
inductive Node where
  | file (contents : Contents)
  | directory
  | device
deriving DecidableEq, Repr

/-- What stands below the root directory, by the names that lead to it from there. -/
structure FileTree where
  /-- The directory in which paths begin that do not begin with a slash. -/
  here : List String
  nodes : List (List String × Node)
deriving DecidableEq, Repr

namespace FileTree

/-- What names lead to. -/
def node? (t : FileTree) (names : List String) : Option Node :=
  if names.isEmpty then some .directory else t.nodes.lookup names

/-- Puts a node in place of what names lead to. -/
def put (t : FileTree) (names : List String) (node : Node) : FileTree :=
  { t with nodes := (names, node) :: t.nodes.filter fun entry => entry.1 ≠ names }

/-- Puts a node in place of what names lead to, and directories in place of what is above it. -/
def place (t : FileTree) (names : List String) (node : Node) : FileTree :=
  -- every prefix but the empty one, which is the root and always there
  let above := (List.range names.length).drop 1 |>.map names.take
  (above.foldl (fun t names => t.put names .directory) t).put names node

/-- Names of the directories that stand in the root directory of a system. -/
def systemNames : List String :=
  ["bin", "boot", "dev", "etc", "home", "lib", "media", "mnt", "opt", "proc", "root", "run", "sbin",
    "srv", "sys", "tmp", "usr", "var"]

/-- A system without files and with an empty directory to run commands in. -/
def fresh (here : List String) : FileTree :=
  let bare : FileTree := { here, nodes := systemNames.map fun name => ([name], .directory) }
  (bare.place here .directory).place ["dev", "null"] .device

/-- The files below the directory that commands run in, by the names that lead to them from there. -/
def files (t : FileTree) : List (List String × Contents) :=
  t.nodes.filterMap fun (names, node) =>
    match node with
    | .file contents =>
      if names.take t.here.length = t.here then some (names.drop t.here.length, contents) else none
    | .directory | .device => none

/-! ## §2 Paths -/

/-- Bytes of the longest name. -/
def longestName : Nat := 255

/-- Bytes of the longest path. -/
def longestPath : Nat := 4095

/-- Whether a path leads anywhere: it is not empty and not too long. -/
def Leads (path : String) : Prop := path ≠ "" ∧ path.utf8ByteSize ≤ longestPath

instance (path : String) : Decidable (Leads path) := inferInstanceAs (Decidable (_ ∧ _))

/-- The directory in which a path begins. -/
def start (t : FileTree) (path : String) : List String :=
  if path.toList.head? = some '/' then [] else t.here

/-- One step of a path. Steps start in directories, and nothing is above the root directory. -/
def step? (t : FileTree) (names : List String) (part : String) : Option (List String) :=
  if t.node? names ≠ some .directory then none
  else if part = "" ∨ part = "." then some names
  else if longestName < part.utf8ByteSize ∨ '\x00' ∈ part.toList then none
  else if part = ".." then some names.dropLast
  else some (names ++ [part])

/-- The names that a path stands for, whether something is there or not. -/
def resolve? (t : FileTree) (path : String) : Option (List String) :=
  if Leads path then (path.splitOn "/").foldlM t.step? (t.start path) else none

/-- What stands at a path. -/
def find? (t : FileTree) (path : String) : Option Node := t.resolve? path >>= t.node?

/-- One step of a path that is to be a directory: what is not there is made. -/
def makeStep? (state : FileTree × List String) (part : String) :
    Option (FileTree × List String) := do
  let (t, names) := state
  let next ← t.step? names part
  match t.node? next with
  | none => return (t.put next .directory, next)
  | some .directory => return (t, next)
  | some (.file _) | some .device => none

/-- The tree with a directory at a path. -/
def makeDirectory? (t : FileTree) (path : String) : Option FileTree :=
  if Leads path then ((path.splitOn "/").foldlM makeStep? (t, t.start path)).map Prod.fst
  else none

/-- The tree with a file at a path, in a directory that is there. A device stays what it is. -/
def write? (t : FileTree) (path : String) (contents : Contents) : Option FileTree := do
  let names ← t.resolve? path
  match t.node? names with
  | some .directory => none
  | some .device => return t
  | some (.file _) | none => return t.put names (.file contents)

/-! ## §3 A tree as a storage -/

/-- Keeps the tree that a change gives, and tells whether there is one. -/
def change (f : FileTree → Option FileTree) : StateM FileTree Bool := do
  match f (← get) with
  | some t => set t; return true
  | none => return false

/-- What stands at a path is a file with certain contents. -/
def contents? (t : FileTree) (path : String) : Option Contents :=
  match t.find? path with
  | some (.file contents) => some contents
  | _ => none

instance : Storage (StateM FileTree) where
  entry? path := return ((← get).find? path).map fun
    | .file _ => .file
    | .directory | .device => .other
  canOpen path := return ((← get).contents? path).isSome
  read? path := return ((← get).contents? path).map fun
    | .bytes bytes => bytes
    | .picture _ => Picture.signature
  readPicture? path := return ((← get).contents? path).bind fun
    | .picture picture => some picture
    | .bytes _ => none
  makeDirectory path := change fun t => t.makeDirectory? path
  write path bytes := change fun t => t.write? path (.bytes bytes)
  writePicture path picture := change fun t => t.write? path (.picture picture)

end FileTree

end Resample
