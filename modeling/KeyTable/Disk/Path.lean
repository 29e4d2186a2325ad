/-!
# Paths

A *path* is what a caller writes: names with slashes between them.  A *place* is
where a path leads on a disk, as the names from the root folder down.  Of the
names in a path, `.` stays in a folder and `..` goes up to the folder around it.

What is around the root folder belongs to others.  A place out there is written
with `..` names, and nothing is known of it but that it is a folder.
-/

namespace KeyTable

/-! ## Paths -/

/-- Names with slashes between them. -/
structure Path where
  /-- The path as it was written. -/
  text : String
  deriving Repr, DecidableEq

namespace Path

/-- The names of a path, first to last.  Several slashes in a row count as one. -/
def names (path : Path) : List String :=
  ((path.text.toList.splitOn '/').map String.ofList).filter (· ≠ "")

/-- Does a slash follow the last name? -/
def endsInSlash (path : Path) : Bool := path.text.toList.getLast? == some '/'

/-- Number of bytes of a path. -/
def length (path : Path) : Nat := path.text.utf8ByteSize

/-- The name of the file that a path leads to, if the path gives one. -/
def fileName? (path : Path) : Option String :=
  match (path.names.filter (· ≠ ".")).getLast? with
  | some ".." => none
  | name => name

/-- The path whose last name is longer by `suffix`. -/
def extended (path : Path) (suffix : String) : Path := ⟨path.text ++ suffix⟩

end Path

/-! ## Places -/

/-- A place on a disk, as the names from the root folder down. -/
abbrev Place := List String

namespace Place

/-- Is this the root folder, or a folder around it? -/
def isOutside (place : Place) : Bool := place.all (· == "..")

/-- The folder that a place is in. -/
def parent (place : Place) : Place :=
  if place.isOutside then ".." :: place else place.dropLast

/-- The place of a name in a folder. -/
def child (folder : Place) (name : String) : Place := folder ++ [name]

end Place

end KeyTable
