import KeyTable.FileTable.Basic

/-!
# Compaction

A log grows with every change, whatever becomes of the key.  Compaction writes a
new log beside the old one, with a single frame for each key that is present, and
renames it over the old one; a failure on the way leaves the old log as it was.
The table goes on writing behind the end of the new log.
-/

namespace KeyTable
namespace FileTable

/-- What the path of a log is extended by while the new log is being written. -/
def scratchSuffix : String := ".compact.tmp"

/-- The bytes of a log that holds each record once. -/
def compactLog (table : MemoryTable) : Bytes :=
  Log.header ++ table.entries.flatMap fun entry => Log.encodeFrame (.store entry.key entry.value)

/-- Writes the new log under the scratch path and renames it over the old one.
The answer is the number of its file. -/
def replaceLog (disk : Disk) (path : Path) (bytes : Bytes) : Except DiskError Nat × Disk :=
  let scratch := path.extended scratchSuffix
  match disk.openEmpty scratch with
  | .error error => (.error error, disk)
  | .ok (file, disk) =>
    let disk := disk.append file bytes
    match disk.rename scratch path with
    | .error error => (.error error, disk)
    | .ok disk => (.ok file, disk)

/-- Replaces the log by one that holds each record once. -/
def compact (table : FileTable) (disk : Disk) : Outcome FileTable Unit :=
  if table.readOnly then ⟨.error .readOnly, table, disk⟩
  else
    match table.path with
    | none => ⟨.ok (), table, disk⟩
    | some path =>
      let (table, disk) := table.sync disk
      match replaceLog disk path (compactLog table.memory) with
      | (.error error, disk) => ⟨.error (.disk error), table, disk⟩
      | (.ok file, disk) =>
        let log := Log.Appender.onFile file .tail table.policy
        ⟨.ok (), { table with log := some log }, disk⟩

end FileTable
end KeyTable
