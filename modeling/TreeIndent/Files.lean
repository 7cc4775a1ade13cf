import TreeIndent.Text.Basic
import TreeIndent.Path

/-!
# Files

What can stand at a path, and what reading it as text gives. A `Folder` lists files; `Folder.lookup` looks a
path up in it, step by step from one directory to the next.
-/

namespace TreeIndent

/-- What stands at a path. -/
inductive File where
  | missing
  | directory
  /-- The path goes through a regular file. -/
  | beyondFile
  /-- The path, or a name in it, is too long. -/
  | tooLong
  /-- The path holds a null character. -/
  | nulInPath
  | content (bytes : ByteArray)

/-- Why a file could not be read as text. -/
inductive ReadError where
  | missing
  | directory
  | beyondFile
  | tooLong
  | nulInPath
  | notText
deriving DecidableEq, Repr

/-- The system's wording of a read error. -/
def ReadError.message : ReadError → String
  | .missing => "No such file or directory (os error 2)"
  | .directory => "Is a directory (os error 21)"
  | .beyondFile => "Not a directory (os error 20)"
  | .tooLong => "File name too long (os error 36)"
  | .nulInPath => "file name contained an unexpected NUL byte"
  | .notText => "stream did not contain valid UTF-8"

namespace File

/-- The text of a file, whose bytes must be UTF-8. -/
def read : File → Except ReadError Text
  | .missing => .error .missing
  | .directory => .error .directory
  | .beyondFile => .error .beyondFile
  | .tooLong => .error .tooLong
  | .nulInPath => .error .nulInPath
  | .content bytes =>
    match String.fromUTF8? bytes with
    | some text => .ok text.toList
    | none => .error .notText

/-- A file that holds a text. -/
def ofText (text : String) : File :=
  .content text.toUTF8

/-- Whether it is a file or a directory. -/
def isPresent : File → Bool
  | .content _ | .directory => true
  | _ => false

end File

/-- Files by their paths, which start in the working directory. -/
abbrev Folder := List (String × File)

namespace Folder

/-- What stands at a location: the last file listed for it, or a directory that a listed file's path goes
through. The directories that ways start from are always there. -/
def fileAt (folder : Folder) (location : Location) : File :=
  let present := folder.filter fun entry => entry.2.isPresent
  if location.names.isEmpty then .directory
  else
    match present.reverse.find? fun entry => Location.ofPath entry.1 = location with
    | some (_, file) => file
    | none => if present.any fun entry => (Location.trail entry.1).contains location then .directory else .missing

/-- What stands at the end of a path's steps. Every step, also one that stays or goes back, is taken from a
directory that is there. -/
def reach (folder : Folder) : Location → List String → File
  | location, [] => folder.fileAt location
  | location, step :: steps =>
    match folder.fileAt location with
    | .directory =>
      if Path.isNameTooLong step then .tooLong else folder.reach (location.follow step) steps
    | .content _ => .beyondFile
    | file => file

/-- What stands at a path. -/
def lookup (folder : Folder) (path : String) : File :=
  if Path.hasNul path then .nulInPath
  else if Path.isTooLong path then .tooLong
  else folder.reach (.start path) (Path.steps path)

end Folder

end TreeIndent
