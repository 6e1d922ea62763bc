import StackScript.Text.Split

/-!
# File paths

A path is a root and a list of names. Empty names and single dots are dropped when a path is read,
so that a path is always shown in its shortest form; two dots are kept.

## Main definitions

* `Path.ofString`: the path that a text names.
* `Path.text`: the text of a path.
* `Path.suffix`: the part of the last name from its last dot on.
-/

namespace StackScript

/-- The start of a path: where it is taken, at the root, or at the root spelled with two
slashes. -/
inductive PathRoot where
  | relative
  | slash
  | doubleSlash
deriving DecidableEq

/-- A file path. -/
structure Path where
  root : PathRoot
  names : List String
deriving DecidableEq

namespace Path

/-- The root that the leading slashes of a text denote: exactly two are kept apart. -/
def rootOf (text : List Char) : PathRoot :=
  match (text.takeWhile (· == '/')).length with
  | 0 => .relative
  | 2 => .doubleSlash
  | _ => .slash

/-- The path that a text names. -/
def ofString (s : String) : Path :=
  let names := (Text.splitAtChar '/' s.toList).filter fun part => !part.isEmpty && part != ['.']
  ⟨rootOf s.toList, names.map String.ofList⟩

/-- The text of a path; the empty relative path is a dot. -/
def text (p : Path) : String :=
  let names := "/".intercalate p.names
  match p.root with
  | .relative => if p.names.isEmpty then "." else names
  | .slash => "/" ++ names
  | .doubleSlash => "//" ++ names

/-- The part of a name from its last dot on; empty when that dot is its first or last character. -/
def suffixOf (name : List Char) : List Char :=
  let tail := name.reverse.takeWhile (· != '.')
  let stem := name.reverse.dropWhile (· != '.')
  match stem with
  | _ :: _ :: _ => if tail.isEmpty then [] else '.' :: tail.reverse
  | _ => []

/-- The suffix of the last name of a path. -/
def suffix (p : Path) : List Char :=
  match p.names.getLast? with
  | some name => suffixOf name.toList
  | none => []

end Path

end StackScript
