namespace HungryTape

inductive FileRead where
  | contents (bytes : List UInt8)
  | missing
  | refused (message : String)
deriving DecidableEq, Repr

/-- What reading a path gives. -/
abbrev FileSystem := String → FileRead

inductive DirectoryEntry where
  | file (bytes : List UInt8)
  | emptyDirectory
deriving DecidableEq, Repr

/-- A working directory in which everything lies directly and nothing lies deeper. -/
abbrev Directory := List (String × DirectoryEntry)

/-- Where a path has led so far. -/
inductive Place where
  | outside
  | here
  | emptyDirectory
  | file (bytes : List UInt8)
deriving DecidableEq, Repr

def notADirectory : FileRead := .refused "Not a directory (os error 20)"

def isADirectory : FileRead := .refused "Is a directory (os error 21)"

namespace Directory

/-- One component further, or the answer if the path cannot go on. -/
def enter (d : Directory) (place : Place) (component : String) : Except FileRead Place :=
  match place with
  | .file _ => .error notADirectory
  | place =>
    if component = "" ∨ component = "." then .ok place
    else if component = ".." then
      .ok (if place = .emptyDirectory then .here else .outside)
    else match place, d.lookup component with
      | .here, some (.file bytes) => .ok (.file bytes)
      | .here, some .emptyDirectory => .ok .emptyDirectory
      | _, _ => .error .missing

/-- Reads a path from inside the directory. -/
def read (d : Directory) : FileSystem := fun path =>
  if path.toList.contains '\x00' then .refused "file name contained an unexpected NUL byte"
  else if path = "" then .missing
  else
    let start := if path.toList.head? = some '/' then Place.outside else Place.here
    match (path.splitOn "/").foldlM d.enter start with
    | .ok (.file bytes) => .contents bytes
    | .ok _ => isADirectory
    | .error answer => answer

end Directory

end HungryTape
