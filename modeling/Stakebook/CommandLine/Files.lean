import Stakebook.Bytes

/-!
# Files

The commands work on files through the four operations of `Files m`, in any monad `m`: the program
runs them on a disk, and `Folder.files` is an instance in memory.
-/

namespace Stakebook

/-- Why a file could not be used. -/
inductive FileError
  | notFound
  | alreadyThere
  | notDirectory
  | isDirectory
  | other (message : String)
deriving DecidableEq

/-- The message of an error. -/
def FileError.message : FileError → String
  | .notFound => "No such file or directory (os error 2)"
  | .alreadyThere => "File exists (os error 17)"
  | .notDirectory => "Not a directory (os error 20)"
  | .isDirectory => "Is a directory (os error 21)"
  | .other message => message

/-- What can be done with files: reading and writing a whole file, asking whether something stands
at a path, and making a directory with all that lead to it. -/
structure Files (m : Type → Type) where
  read : String → m (Except FileError Bytes)
  write : String → Bytes → m (Except FileError Unit)
  isPresent : String → m Bool
  makeDirectories : String → m (Except FileError Unit)

/-- Whether a path ends in a slash; such a path can only lead to a directory. -/
def endsInSlash (path : String) : Bool := path.toList.getLast? = some '/'

/-- The path of a name in a directory. -/
def joinPath (directory name : String) : String :=
  if endsInSlash directory then directory ++ name else directory ++ "/" ++ name

end Stakebook
