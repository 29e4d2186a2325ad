import KeyTable.Dump.Load
import KeyTable.Dump.Print

/-!
# Dumps in files and streams

Saving a table replaces a file by its dump.  Restoring reads the first set of a
file or a stream, into a table that is handed over or into a fresh one.  A table
that is handed over is given up if the dump cannot be read.
-/

namespace KeyTable
namespace Dump

/-! ## Saving -/

/-- What came of saving a table. -/
structure Saved where
  /-- Why saving failed, if it did. -/
  answer : Except Fault Unit
  /-- The table afterwards. -/
  table : Table
  /-- The disk afterwards. -/
  disk : Disk
  /-- What was worth knowing. -/
  notices : List Notice

/-- Writes a table to a file, in place of what the file holds.  If writing fails,
the file keeps what had been written by then. -/
def save (table : Table) (disk : Disk) (path : Path) : Saved :=
  match disk.openEmpty path with
  | .error error => ⟨.error (.disk error), table, disk, []⟩
  | .ok (file, disk) =>
    let printed := print table
    ⟨printed.answer, printed.table, disk.append file printed.bytes, printed.notices⟩

/-! ## Restoring -/

/-- What came of restoring a table. -/
structure Restored where
  /-- The table, if there is one, or why none could be read. -/
  answer : Except Fault (Option Table)
  /-- The disk afterwards. -/
  disk : Disk
  /-- The stream, behind what was read. -/
  rest : Stream
  /-- What was worth knowing. -/
  notices : List Notice

/-- The disk after a table was given up, if there was one. -/
def giveUp (table : Option Table) (disk : Disk) : Disk :=
  match table with
  | none => disk
  | some table => table.release disk

/-- What restoring comes to when a set has been read.  If no table was handed over, there is
one only if there is at least one record. -/
def Restored.ofLoaded (handedOver : Bool) (loaded : Loaded) : Restored :=
  match loaded.answer with
  | .error fault =>
    ⟨.error fault, loaded.table.release loaded.disk, loaded.rest, loaded.notices⟩
  | .ok summary =>
    let answer := if !handedOver && summary.records == 0 then none else some loaded.table
    ⟨.ok answer, loaded.disk, loaded.rest, loaded.notices⟩

/-- Reads one set of a stream.  Without a table, the records go into a fresh table
in memory. -/
def restore (table : Option Table) (disk : Disk) (stream : Stream) : Restored :=
  .ofLoaded table.isSome (readSet (table.getD (.memory .empty)) disk stream)

/-- Reads the first set of a file, which stays open meanwhile.  If the file is
missing, the table is handed back as it is. -/
def restoreFile (table : Option Table) (disk : Disk) (path : Path) : Restored :=
  match disk.fileNumber path with
  | .ok file => restore table disk (.ofFile file)
  | .error .missing => ⟨.ok table, disk, .ofBytes [], []⟩
  | .error error => ⟨.error (.disk error), giveUp table disk, .ofBytes [], []⟩

end Dump
end KeyTable
