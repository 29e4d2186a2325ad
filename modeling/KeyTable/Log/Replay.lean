import KeyTable.Fault
import KeyTable.Log.Frame
import KeyTable.MemoryTable.Basic

/-!
# Replaying a log

A log file is a header, made of the magic bytes and a version, and frames behind
it.  To replay a log is to read its frames up to the first that is not intact,
and to make the changes they hold to an empty table.  A `Recovery` reports how
much of the file was intact.
-/

namespace KeyTable

/-- What was found when a log was replayed. -/
structure Recovery where
  /-- Number of frames read back. -/
  applied : Nat := 0
  /-- Number of bytes up to the end of the last intact frame. -/
  validLength : Nat := 0
  /-- Number of bytes behind it. -/
  discarded : Nat := 0
  /-- Were these bytes cut off the file? -/
  truncated : Bool := false
  deriving Repr, DecidableEq

namespace Log

/-! ## The header -/

/-- The bytes that open a log. -/
def magic : Bytes := [0x4b, 0x56, 0x48, 0x4c]

/-- The version of the format. -/
def version : Nat := 1

/-- The bytes in front of the first frame. -/
def header : Bytes := magic ++ LittleEndian.encode 2 version

/-- Number of bytes in front of the first frame. -/
def headerSize : Nat := 6

/-- Is this a header that was cut short before it was written in full?  The
empty file counts as one. -/
def isPartialHeader (bytes : Bytes) : Bool :=
  bytes.length < headerSize && bytes.isPrefixOf header

/-! ## Frames -/

/-- The changes in the frames that a byte string opens with, and the bytes behind
the last intact frame. -/
def decodeFrames (bytes : Bytes) : List Change × Bytes :=
  match _h : decodeFrame? bytes with
  | none => ([], bytes)
  | some (change, rest) =>
    let (changes, damaged) := decodeFrames rest
    (change :: changes, damaged)
termination_by bytes.length
decreasing_by
  have := length_of_decodeFrame? _h
  simp only [frameHeaderSize] at this
  omega

/-- The changes that a log file holds, up to its first damaged frame. -/
def replay (bytes : Bytes) : Except Fault (List Change × Recovery) :=
  if bytes.length < headerSize || bytes.take 4 != magic then
    .error (.corrupt (.badMagic (bytes.take 4)))
  else
    let found := LittleEndian.decode ((bytes.drop 4).take 2)
    if found ≠ version then .error (.corrupt (.badVersion found))
    else
      let (changes, damaged) := decodeFrames (bytes.drop headerSize)
      .ok (changes,
        { applied := changes.length
          validLength := bytes.length - damaged.length
          discarded := damaged.length })

end Log

/-- Makes a logged change to a table.  The removal of a key that is absent changes
nothing. -/
def MemoryTable.apply (table : MemoryTable) : Change → MemoryTable
  | .store key value => (table.store key (.given value)).2
  | .delete key => (table.delete key).2

end KeyTable
