import Cpu6502.Text.Pieces

/-!
# Files

What a path leads to, and why a file that it does not lead to cannot be read. A working directory
is a list of named entries; paths that start in it are followed component by component.
-/

namespace Cpu6502

/-- Why a file cannot be read. -/
inductive ReadFailure where
  | notFound
  | notDirectory
  | isDirectory
  | nameTooLong
  | nulInName
  deriving DecidableEq, Repr

/-- The wording of the system for a failure. -/
def ReadFailure.message : ReadFailure → String
  | notFound => "No such file or directory (os error 2)"
  | notDirectory => "Not a directory (os error 20)"
  | isDirectory => "Is a directory (os error 21)"
  | nameTooLong => "File name too long (os error 36)"
  | nulInName => "file name contained an unexpected NUL byte"

/-- What a path leads to. -/
inductive Entry where
  | file (contents : ByteArray)
  | directory
  | absent (cause : ReadFailure)

/-- All that a program sees of the file system. -/
abbrev FileSystem := String → Entry

/-- The contents of the file at a path. -/
def FileSystem.read (files : FileSystem) (path : String) : Except ReadFailure ByteArray :=
  match files path with
  | .file contents => .ok contents
  | .directory => .error .isDirectory
  | .absent cause => .error cause

/-- The most bytes that the name of an entry may have. -/
def nameLimit : Nat := 255

/-- The number of bytes from which a path is too long. -/
def pathLimit : Nat := 4096

/-- A directory, by the names of its entries. -/
abbrev WorkingDirectory := List (String × Entry)

/-- Where a walk along a path stands: in the working directory, in a directory inside it or in one
around it. -/
inductive Place where
  | working
  | inside
  | around

namespace WorkingDirectory

/-- Follows the components of a path. A directory inside the working directory is taken to be empty,
and nothing is known of those around it. -/
def follow (directory : WorkingDirectory) : Place → List String → Entry
  | _, [] => .directory
  | place, name :: rest =>
    if name = "" ∨ name = "." then directory.follow place rest
    else if name = ".." then
      match place with
      | .inside => directory.follow .working rest
      | .working | .around => directory.follow .around rest
    else if nameLimit < name.utf8ByteSize then .absent .nameTooLong
    else
      match place with
      | .inside | .around => .absent .notFound
      | .working =>
        match directory.lookup name with
        | none => .absent .notFound
        | some .directory => directory.follow .inside rest
        | some entry => if rest = [] then entry else .absent .notDirectory

/-- The entry at a path. An absolute path leads out of the working directory, and a path that is too
long leads nowhere, whatever its components. -/
def entry (directory : WorkingDirectory) (path : String) : Entry :=
  if path.toList.contains '\x00' then .absent .nulInName
  else if pathLimit ≤ path.utf8ByteSize then .absent .nameTooLong
  else
    match (Text.pieces (· == '/') path.toList).map String.ofList with
    | [""] => .absent .notFound
    | "" :: rest => directory.follow .around rest
    | components => directory.follow .working components

end WorkingDirectory

end Cpu6502
