import Stakebook.CommandLine.Files
import Stakebook.OrdMap.Basic

/-!
# A directory in memory

A `Folder` is a working directory with the files and the directories in it, and `Folder.files` are
the operations on it.

A path is followed name by name (`Folder.walk`), and every step starts at a directory that is there:
`a/../b` leads to the same place as `b` if `a` is a directory, and nowhere if there is no `a`.
-/

namespace Stakebook

instance : KeyOrder Char := KeyOrder.comap Char.toNat Char.toNat_inj.1
instance : KeyOrder String := KeyOrder.comap String.toList String.toList_inj.1

/-! ## Places -/

/-- A place in the tree of directories: the names that lead to it from the working directory. A
place outside begins with the `..` that lead out, or with the root `/`. -/
abbrev Place := List String

namespace Place

/-- The place above. Nothing is above the root. -/
def above (place : Place) : Place :=
  match place.getLast? with
  | some "/" => place
  | none | some ".." => place ++ [".."]
  | some _ => place.dropLast

/-- The place that a name leads to. -/
def step (place : Place) : String → Place
  | "." => place
  | ".." => place.above
  | name => place ++ [name]

/-- Whether a place is the working directory, one that it lies in, or the root. -/
def isOuter (place : Place) : Bool := place.all fun name => name = ".." ∨ name = "/"

/-- Where a path starts: at the root, or in the working directory. -/
def origin (path : String) : Place := if path.toList.head? = some '/' then ["/"] else []

end Place

/-- The names of a path, which stand between its slashes. -/
def namesOf (path : String) : List String :=
  ((path.toList.splitBy fun a b => a ≠ '/' && b ≠ '/').map String.ofList).filter (· ≠ "/")

/-! ## Folders -/

/-- What can stand at a place. -/
inductive Entry
  | file (contents : Bytes)
  | directory

/-- A working directory in memory: what stands at which place. The directories it lies in are there
too, and hold nothing else. -/
structure Folder where
  entries : OrdMap Place Entry

namespace Folder

/-- What stands at a place. -/
def get? (f : Folder) (place : Place) : Option Entry :=
  if place.isOuter then some .directory else f.entries.get? place

/-- Puts something at a place. -/
def put (f : Folder) (place : Place) (e : Entry) : Folder := ⟨f.entries.insert place e⟩

/-- The place that names lead to, where each step starts at a directory. Nothing has to stand at the
end of the way. -/
def walk (f : Folder) (place : Place) : List String → Except FileError Place
  | [] => .ok place
  | name :: names =>
    match f.get? place with
    | none => .error .notFound
    | some (.file _) => .error .notDirectory
    | some .directory => f.walk (place.step name) names

/-- The place that a path leads to. -/
def locate (f : Folder) (path : String) : Except FileError Place :=
  f.walk (.origin path) (namesOf path)

/-- What a path leads to. -/
def find (f : Folder) (path : String) : Except FileError Entry := do
  match f.get? (← f.locate path) with
  | none => throw .notFound
  | some .directory => return .directory
  | some (.file bs) => if endsInSlash path then throw .notDirectory else return .file bs

/-- Makes the directory that names lead to, unless it is there. -/
def makeDirectory (origin : Place) (names : List String) :
    StateM Folder (Except FileError Unit) := do
  match (← get).walk origin names with
  | .error e => return .error e
  | .ok place =>
    match (← get).get? place with
    | some .directory => return .ok ()
    | some (.file _) => return .error .alreadyThere
    | none =>
      modify (·.put place .directory)
      return .ok ()

/-- Makes the directory that names lead to. If a directory on the way is missing, the one above is
made first, in the same manner; `way` holds the names but for `.`, from the last to the first. -/
def makeWay (origin : Place) (names : List String) (way : List String) :
    StateM Folder (Except FileError Unit) := do
  match ← makeDirectory origin names, way with
  | .error .notFound, _ :: above =>
    match ← makeWay origin above.reverse above with
    | .error e => return .error e
    | .ok () => makeDirectory origin names
  | result, _ => return result

/-- The operations on a directory in memory. -/
def files : Files (StateM Folder) where
  read path := do
    match (← get).find path with
    | .error e => return .error e
    | .ok .directory => return .error .isDirectory
    | .ok (.file bs) => return .ok bs
  write path bs := do
    match (← get).locate path with
    | .error e => return .error e
    | .ok place =>
      match (← get).get? place, endsInSlash path with
      | some .directory, _ | _, true => return .error .isDirectory
      | _, false =>
        modify (·.put place (.file bs))
        return .ok ()
  isPresent path := return ((← get).find path).isOk
  makeDirectories path :=
    makeWay (.origin path) (namesOf path) ((namesOf path).filter (· ≠ ".")).reverse

/-- Adds a file, and the directories on the way to it. -/
def add (f : Folder) (path : String) (contents : Bytes) : Folder :=
  let way := (namesOf path).dropLast
  let act : StateM Folder (Except FileError Unit) := do
    let _ ← makeWay (.origin path) way way.reverse
    files.write path contents
  (act.run f).2

/-- The directory with these files. -/
def ofList (l : List (String × Bytes)) : Folder :=
  l.foldl (fun f (path, contents) => f.add path contents) ⟨∅⟩

end Folder

end Stakebook
