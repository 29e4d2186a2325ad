import KeyTable.Disk.Path
import KeyTable.Disk.StoredFile

/-!
# Disk

A tree of folders and files.  A place leads to a file, and a file has a number of
its own, so that an open file stays the same file when its place is given to
another one.  Every operation says by a `DiskError` why it cannot be done; a
failed operation changes nothing.

Files are addressed in two ways: by path, to make, read, replace or rename them,
and by number, to read and write through an open handle.
-/

namespace KeyTable

/-- Why an operation on the disk cannot be done. -/
inductive DiskError where
  /-- Nothing has this name. -/
  | missing
  /-- Something has this name already. -/
  | occupied
  /-- A file stands where a folder is needed. -/
  | notFolder
  /-- A folder stands where a file is needed. -/
  | isFolder
  /-- A name, or the whole path, is too long. -/
  | tooLong
  /-- The zero character is in a name. -/
  | nulInName
  deriving Repr, DecidableEq

namespace DiskError

/-- The text of an error of the system, with the system's number of it. -/
def numbered (text : String) (number : Nat) : String := s!"{text} (os error {number})"

/-- The text of an error. -/
def message : DiskError → String
  | .missing => numbered "No such file or directory" 2
  | .occupied => numbered "File exists" 17
  | .notFolder => numbered "Not a directory" 20
  | .isFolder => numbered "Is a directory" 21
  | .tooLong => numbered "File name too long" 36
  | .nulInName => "file name contained an unexpected NUL byte"

end DiskError

/-- What a place holds. -/
inductive DiskNode where
  /-- A folder. -/
  | folder
  /-- The file of this number. -/
  | file (number : Nat)
  deriving Repr, DecidableEq

/-- A tree of folders and files. -/
structure Disk where
  /-- What each place holds; the root folder is not listed. -/
  nodes : List (Place × DiskNode)
  /-- Every file that was ever made, by its number. -/
  files : Array StoredFile
  deriving Repr

namespace Disk

/-- A disk with nothing but the root folder. -/
def empty : Disk := ⟨[], #[]⟩

/-- The permission bits that a new file gets of those asked for.  The umask of the
process is taken to be 022, so others than the owner may not write. -/
def grantedMode (mode : Nat) : Nat := mode &&& 0o755

/-- The permission bits asked for where the caller does not choose. -/
def plainMode : Nat := 0o666

/-- The permission bits of a folder. -/
def folderMode : Nat := 0o755

/-- The most bytes of a name. -/
def maxNameLength : Nat := 255

/-- The most bytes of a path.  The system takes 4095, and sixteen of them lead to
the root folder. -/
def maxPathLength : Nat := 4079

/-- The most bytes of a file. -/
def maxFileSize : Nat := 0x7fffffffffffffff

/-! ## Finding what a path leads to -/

/-- What a place holds. -/
def node? (disk : Disk) (place : Place) : Option DiskNode :=
  if place.isOutside then some .folder else (disk.nodes.find? (·.1 = place)).map (·.2)

/-- Looks for a name in a folder. -/
def look (disk : Disk) (folder : Place) (name : String) : Except DiskError (Option DiskNode) :=
  if maxNameLength < name.utf8ByteSize then .error .tooLong else .ok (disk.node? (folder.child name))

/-- Walks from a folder through others. -/
def walk (disk : Disk) (folder : Place) : List String → Except DiskError Place
  | [] => .ok folder
  | name :: names =>
    if name = "." then walk disk folder names
    else if name = ".." then walk disk folder.parent names
    else
      match disk.look folder name with
      | .error error => .error error
      | .ok none => .error .missing
      | .ok (some (.file _)) => .error .notFolder
      | .ok (some .folder) => walk disk (folder.child name) names

/-- Where a path leads. -/
inductive Target where
  /-- To this folder, which it does not name. -/
  | folder (place : Place)
  /-- To a name in a folder. -/
  | name (folder : Place) (name : String)
  deriving Repr, DecidableEq

/-- Where a path leads, if its folders are there. -/
def target (disk : Disk) (path : Path) : Except DiskError Target :=
  if path.text.toList.contains '\x00' then .error .nulInName
  else if maxPathLength < path.length then .error .tooLong
  else
    match path.names.getLast? with
    | none => .ok (.folder [])
    | some last =>
      (disk.walk [] path.names.dropLast).map fun folder =>
        if last = "." then .folder folder
        else if last = ".." then .folder folder.parent
        else .name folder last

/-- What a path leads to.  A slash at its end asks for a folder. -/
def find (disk : Disk) (path : Path) : Except DiskError (Option DiskNode) := do
  match ← disk.target path with
  | .folder _ => return some .folder
  | .name folder name =>
    match ← disk.look folder name with
    | some (.file number) =>
      if path.endsInSlash then throw .notFolder else return some (.file number)
    | node => return node

/-- The number of the file that a path leads to. -/
def fileNumber (disk : Disk) (path : Path) : Except DiskError Nat := do
  match ← disk.find path with
  | none => throw .missing
  | some .folder => throw .isFolder
  | some (.file number) => return number

/-! ## Changing the tree -/

/-- Gives a place to a node, instead of what it held. -/
def rebind (disk : Disk) (place : Place) (node : DiskNode) : Disk :=
  { disk with nodes := (place, node) :: disk.nodes.filter (·.1 ≠ place) }

/-- Makes a folder. -/
def makeFolder (disk : Disk) (path : Path) : Except DiskError Disk := do
  match ← disk.target path with
  | .folder _ => throw .occupied
  | .name folder name =>
    match ← disk.look folder name with
    | none => return disk.rebind (folder.child name) .folder
    | some _ => throw .occupied

/-- Opens a file for writing, and makes it if it is missing. -/
def openOrMake (disk : Disk) (path : Path) (mode : Nat) : Except DiskError (Nat × Disk) := do
  match ← disk.target path with
  | .folder _ => throw .isFolder
  | .name folder name =>
    if path.endsInSlash then throw .isFolder
    else
      match ← disk.look folder name with
      | some .folder => throw .isFolder
      | some (.file number) => return (number, disk)
      | none =>
        let number := disk.files.size
        let made := { disk with files := disk.files.push (.empty (grantedMode mode)) }
        return (number, made.rebind (folder.child name) (.file number))

/-- Moves a file to another path, in place of the file that is there. -/
def rename (disk : Disk) (source destination : Path) : Except DiskError Disk := do
  let number ← disk.fileNumber source
  match ← disk.target source, ← disk.target destination with
  | .name folder name, .name home fresh =>
    match ← disk.look home fresh with
    | some .folder => throw .isFolder
    | _ =>
      let cleared := { disk with nodes := disk.nodes.filter (·.1 ≠ folder.child name) }
      return cleared.rebind (home.child fresh) (.file number)
  | _, _ => throw .isFolder

/-- The names in the root folder, in ascending order. -/
def list (disk : Disk) : List String :=
  let names := disk.nodes.filterMap fun
    | ([name], _) => some name
    | _ => none
  names.mergeSort fun a b => decide (a ≤ b)

/-! ## Files by number -/

/-- What a file holds. -/
def contents (disk : Disk) (number : Nat) : Bytes :=
  (disk.files[number]?.map (·.bytes)).getD []

/-- At most so many bytes of a file from an offset on. -/
def readAt (disk : Disk) (number offset count : Nat) : Bytes :=
  (disk.files[number]?.map (·.read offset count)).getD []

/-- Changes a file. -/
def update (disk : Disk) (number : Nat) (change : StoredFile → StoredFile) : Disk :=
  { disk with files := disk.files.modify number change }

/-- Writes bytes into a file from an offset on.  To write no bytes does not even
fill a gap. -/
def writeAt (disk : Disk) (number offset : Nat) (bytes : Bytes) : Disk :=
  if bytes = [] then disk else disk.update number (·.write offset bytes)

/-- Writes bytes behind the end of a file. -/
def append (disk : Disk) (number : Nat) (bytes : Bytes) : Disk :=
  disk.update number fun file => file.write file.size bytes

/-- Cuts a file to a length, or fills it up with zero bytes. -/
def resize (disk : Disk) (number length : Nat) : Disk :=
  disk.update number (·.resize length)

/-! ## Files by path -/

/-- Opens a file for writing with nothing in it. -/
def openEmpty (disk : Disk) (path : Path) : Except DiskError (Nat × Disk) := do
  let (number, disk) ← disk.openOrMake path plainMode
  return (number, disk.resize number 0)

/-- What the file at a path holds. -/
def read (disk : Disk) (path : Path) : Except DiskError Bytes :=
  (disk.fileNumber path).map disk.contents

/-- Replaces what the file at a path holds, and makes the file if it is missing. -/
def replace (disk : Disk) (path : Path) (bytes : Bytes) : Except DiskError Disk := do
  let (number, disk) ← disk.openEmpty path
  return disk.append number bytes

/-- Changes what the file at a path holds. -/
def edit (disk : Disk) (path : Path) (change : Bytes → Bytes) : Except DiskError Disk :=
  (disk.fileNumber path).map fun number =>
    disk.update number fun file => file.withBytes (change file.bytes)

/-- Adds bytes to the file at a path. -/
def extend (disk : Disk) (path : Path) (bytes : Bytes) : Except DiskError Disk :=
  (disk.fileNumber path).map fun number => disk.append number bytes

/-- The permission bits of what a path leads to. -/
def mode (disk : Disk) (path : Path) : Except DiskError Nat := do
  match ← disk.find path with
  | none => throw .missing
  | some .folder => return folderMode
  | some (.file number) => return (disk.files[number]?.map (·.mode)).getD 0

/-! ## Reading through a handle -/

/-- To read through a handle is to take a stretch of what the file holds. -/
theorem readAt_eq (disk : Disk) (number offset count : Nat) :
    disk.readAt number offset count = ((disk.contents number).drop offset).take count := by
  unfold readAt contents
  cases disk.files[number]? with
  | none => simp
  | some file => simp [StoredFile.read_eq]

end Disk

end KeyTable
