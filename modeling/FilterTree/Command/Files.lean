import FilterTree.Path

/-!
# Files

A command reads files by their paths and needs to know of the file system
nothing but what reading a path gives (`Files`). One such thing is a directory
whose files are known (`Files.ofDirectory`): a path leads from that directory
from one place to the next, piece by piece. The first piece that cannot be
followed decides why the path cannot be read, so nothing lies behind a file,
not even the file itself, and a name that is too long is only found to be so
where it is looked for.
-/

namespace FilterTree.Command

/-- Why a file could not be read. -/
inductive FileError where
  | notFound
  | notADirectory
  | isDirectory
  | nameTooLong
  | other (reason : String)
deriving DecidableEq, Repr

/-- The text of a file's error. -/
def FileError.message : FileError → String
  | notFound => "No such file or directory (os error 2)"
  | notADirectory => "Not a directory (os error 20)"
  | isDirectory => "Is a directory (os error 21)"
  | nameTooLong => "File name too long (os error 36)"
  | other reason => reason

/-- What reading a path gives. -/
abbrev Files : Type := String → Except FileError String

namespace Files

/-- Bytes that a name may have. -/
def nameLimit : Nat := 255

/-- Bytes that a path may have. -/
def pathLimit : Nat := 4095

/-- Where a path can lead. -/
inductive Place where
  /-- The directory whose files are known. -/
  | home
  /-- A directory outside of it, in which no file is known. -/
  | outside
  | file (content : String)
deriving DecidableEq, Repr

/-- Go on from a place by one piece of a path. -/
def Place.follow (entries : List (String × String)) (place : Place) (piece : String) :
    Except FileError Place :=
  match place with
  | .file _ => .error .notADirectory
  | place =>
    if piece = "" ∨ piece = "." then .ok place
    else if piece = ".." then .ok .outside
    else if nameLimit < piece.utf8ByteSize then .error .nameTooLong
    else
      match if place = .home then entries.lookup piece else none with
      | some content => .ok (.file content)
      | none => .error .notFound

/-- The place at the end of a path. -/
def place (entries : List (String × String)) (path : String) : Except FileError Place :=
  if path.isEmpty then .error .notFound
  else if pathLimit < path.utf8ByteSize then .error .nameTooLong
  else
    let pieces := (Path.pieces path.toList).map String.ofList
    let start : Place := if pieces.head? = some "" then .outside else .home
    pieces.foldlM (Place.follow entries) start

/-- A directory with these files; paths that begin with a slash lead elsewhere. -/
def ofDirectory (entries : List (String × String)) : Files := fun path =>
  match place entries path with
  | .ok (.file content) => .ok content
  | .ok _ => .error .isDirectory
  | .error e => .error e

end Files

end FilterTree.Command
