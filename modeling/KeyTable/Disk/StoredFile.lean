import KeyTable.Bytes.Basic

/-!
# Stored files

A file on a disk: its bytes and its permission bits.  The bytes are in an array,
so that writing behind the end does not touch what is there; `bytes` is the view
that everything is stated in, and `bytes_write`, `bytes_resize` and `read_eq` say
what the operations do to it.
-/

namespace KeyTable

/-- A file: its bytes and its permission bits. -/
structure StoredFile where
  /-- What the file holds. -/
  data : Array UInt8
  /-- Permission bits. -/
  mode : Nat
  deriving Repr, DecidableEq

namespace StoredFile

/-- An empty file. -/
def empty (mode : Nat) : StoredFile := ⟨#[], mode⟩

/-- What the file holds. -/
def bytes (file : StoredFile) : Bytes := file.data.toList

/-- Number of bytes. -/
def size (file : StoredFile) : Nat := file.data.size

/-- Replaces what the file holds. -/
def withBytes (file : StoredFile) (bytes : Bytes) : StoredFile :=
  { file with data := bytes.toArray }

/-- Writes bytes from an offset on. -/
def write (file : StoredFile) (offset : Nat) (bytes : Bytes) : StoredFile :=
  if offset = file.size then { file with data := file.data ++ bytes }
  else file.withBytes (file.bytes.overwrite offset bytes)

/-- Cuts the file to a length, or fills it up with zero bytes. -/
def resize (file : StoredFile) (length : Nat) : StoredFile :=
  if length = file.size then file else file.withBytes (file.bytes.resize length)

/-- At most so many bytes from an offset on. -/
def read (file : StoredFile) (offset count : Nat) : Bytes :=
  (file.data.extract offset (offset + count)).toList

/-! ## What the operations do to the bytes -/

@[simp] theorem bytes_empty (mode : Nat) : (empty mode).bytes = [] := rfl

@[simp] theorem length_bytes (file : StoredFile) : file.bytes.length = file.size := by
  simp [bytes, size]

@[simp] theorem bytes_withBytes (file : StoredFile) (bytes : Bytes) :
    (file.withBytes bytes).bytes = bytes := by
  simp [withBytes, StoredFile.bytes]

@[simp] theorem bytes_write (file : StoredFile) (offset : Nat) (bytes : Bytes) :
    (file.write offset bytes).bytes = file.bytes.overwrite offset bytes := by
  unfold write
  split
  · next h =>
    subst h
    show (file.data ++ bytes).toList = _
    have hsize : file.size = file.bytes.length := (length_bytes file).symm
    rw [Array.toList_appendList, hsize, Bytes.overwrite_length]
    rfl
  · simp

@[simp] theorem bytes_resize (file : StoredFile) (length : Nat) :
    (file.resize length).bytes = file.bytes.resize length := by
  unfold resize
  split
  · next h => rw [h, ← length_bytes, Bytes.resize_length]
  · simp

/-- To read is to take a stretch of the bytes. -/
theorem read_eq (file : StoredFile) (offset count : Nat) :
    file.read offset count = (file.bytes.drop offset).take count := by
  simp [read, bytes, List.extract_eq_take_drop]

end StoredFile

end KeyTable
