import StackScript.Path

/-!
# File trees

The files and directories below a working directory, and what looking up, reading and writing a
path gives.

## Main definitions

* `FileFault`: why a path cannot be read or written.
* `FileTree`: the directories and files.
* `FileTree.find`: what stands at a path.
* `FileTree.read`, `FileTree.write`.
-/

namespace StackScript

/-- Why a path cannot be read or written. -/
inductive FileFault where
  | notFound
  | isDirectory
  | notDirectory
  | nameTooLong
  | other (reason : String)
deriving DecidableEq

/-- The wording of a fault. -/
def FileFault.message : FileFault → String
  | .notFound => "No such file or directory"
  | .isDirectory => "Is a directory"
  | .notDirectory => "Not a directory"
  | .nameTooLong => "File name too long"
  | .other reason => reason

/-- The directories and files known to a run. A place is the list of names that leads there from the
working directory; places above it start with names of the parent directory. -/
structure FileTree where
  directories : List (List String) := []
  files : List (List String × List UInt8) := []

/-- What stands at a path: a directory, the empty device, a file, or room for a file. -/
inductive FileTree.Entry where
  | directory
  | device
  | file (place : List String) (content : List UInt8)
  | free (place : List String)

namespace FileTree

/-- The number of bytes that a name may have. -/
def maxNameSize : Nat := 255

/-- The number of bytes that a path may have. -/
def maxPathSize : Nat := 4095

/-- The names of the directories that stand at the root of every system. -/
def systemDirectories : List String :=
  ["bin", "dev", "etc", "home", "lib", "opt", "proc", "root", "run", "sbin", "sys", "tmp", "usr",
   "var"]

/-- The name that leads to the directory above. -/
def parentName : String := ".."

/-- Whether a place is the working directory or one above it. -/
def isAbove (place : List String) : Bool := place.all (· == parentName)

/-- The place of the directory above. -/
def parent (place : List String) : List String :=
  if isAbove place then place ++ [parentName] else place.dropLast

/-- Whether a directory stands at a place. -/
def hasDirectory (t : FileTree) (place : List String) : Bool :=
  isAbove place || t.directories.contains place

/-- What stands at the end of a list of names, from a directory on. -/
def entry (t : FileTree) (place : List String) : List String → Except FileFault Entry
  | [] => .ok .directory
  | name :: rest =>
    if name = parentName then t.entry (parent place) rest
    else if maxNameSize < name.utf8ByteSize then .error .nameTooLong
    else
      let next := place ++ [name]
      if t.hasDirectory next then t.entry next rest
      else
        match t.files.lookup next, rest with
        | some content, [] => .ok (.file next content)
        | some _, _ => .error .notDirectory
        | none, [] => .ok (.free next)
        | none, _ => .error .notFound

/-- What stands at a path from the root: the directories that every system has, and the device that
is always empty. No other files are known. -/
def systemEntry : List String → Except FileFault Entry
  | [] => .ok .directory
  | [name] => if systemDirectories.contains name then .ok .directory else .error .notFound
  | ["dev", "null"] => .ok .device
  | _ => .error .notFound

/-- What stands at a path. -/
def find (t : FileTree) (path : Path) : Except FileFault Entry :=
  if maxPathSize < path.text.utf8ByteSize then .error .nameTooLong
  else if path.root = .relative then t.entry [] path.names
  else systemEntry path.names

/-- The content of the file at a path. -/
def read (t : FileTree) (path : Path) : Except FileFault (List UInt8) := do
  match ← t.find path with
  | .file _ content => return content
  | .device => return []
  | .directory => .error .isDirectory
  | .free _ => .error .notFound

/-- The tree with a new content of the file at a path; the empty device takes everything and keeps
nothing. -/
def write (t : FileTree) (path : Path) (content : List UInt8) : Except FileFault FileTree := do
  let put (place : List String) : FileTree :=
    { t with files := (place, content) :: t.files.filter fun (other, _) => other != place }
  match ← t.find path with
  | .file place _ => return put place
  | .device => return t
  | .free place => return put place
  | .directory => .error .isDirectory

/-- The directories above a place. -/
def ancestors : List String → List (List String)
  | [] => []
  | name :: rest => [] :: (ancestors rest).map (name :: ·)

/-- A tree with the given directories and files, and all directories above them. -/
def ofEntries (directories : List (List String)) (files : List (List String × List UInt8)) :
    FileTree where
  directories :=
    directories ++ directories.flatMap ancestors ++ files.flatMap fun (place, _) => ancestors place
  files := files

end FileTree

end StackScript
