import KeyTable.FileTable.Basic
import KeyTable.Notice

/-!
# Opening a file table

To open a table is to replay its log.  A log that is damaged behind its last
intact frame is still good for what comes before; if the table is writable, the
damaged rest is cut off, so that new frames follow the intact ones.  A file that
holds no more than the beginning of a header counts as an empty log, and gets a
whole header.

What cannot be a log at all, or a log of another version, is refused, and the
file is left as it was.
-/

namespace KeyTable

/-- What came of opening a table. -/
structure Opening where
  /-- The table, or why it cannot be opened. -/
  answer : Except Fault FileTable
  /-- The disk afterwards. -/
  disk : Disk
  /-- What was worth knowing about the log. -/
  notices : List Notice

namespace FileTable

/-- The number of the file to be opened.  It is made if the flags ask for it. -/
def locateFile (disk : Disk) (path : Path) (flags : OpenFlags) : Except DiskError (Nat × Disk) :=
  if flags.create then disk.openOrMake path flags.mode
  else (disk.fileNumber path).map fun number => (number, disk)

/-- The records that a log holds, and how much of it is intact. -/
def recover (settings : Settings) (bytes : Bytes) : Except Fault (MemoryTable × Recovery) :=
  if Log.isPartialHeader bytes then .ok (.ofSettings settings, { discarded := bytes.length })
  else
    (Log.replay bytes).map fun (changes, recovery) =>
      (changes.foldl MemoryTable.apply (.ofSettings settings), recovery)

/-- What is worth knowing about a log that was recovered. -/
def recoveryNotices (bytes : Bytes) (recovery : Recovery) : List Notice :=
  if recovery.discarded = 0 then []
  else if Log.isPartialHeader bytes then [.partialHeader recovery.discarded]
  else [.damagedTail recovery.validLength recovery.discarded]

/-- Makes a recovered log whole again: it gets its header, or loses what is
damaged. -/
def repair (disk : Disk) (file : Nat) (bytes : Bytes) (recovery : Recovery) : Disk :=
  if Log.isPartialHeader bytes then (disk.resize file 0).writeAt file 0 Log.header
  else if recovery.discarded = 0 then disk
  else disk.resize file recovery.validLength

/-- The table on a file that holds a log. -/
def ofFile (disk : Disk) (file : Nat) (path : Path) (flags : OpenFlags) (settings : Settings) :
    Opening :=
  let bytes := disk.contents file
  match recover settings bytes with
  | .error fault => ⟨.error fault, disk, []⟩
  | .ok (memory, recovery) =>
    let notices := recoveryNotices bytes recovery
    if flags.readOnly then
      ⟨.ok ⟨memory, none, some path, true, settings.sync, recovery⟩, disk, notices⟩
    else
      let disk := repair disk file bytes recovery
      let log := Log.Appender.onFile file (.offset (disk.contents file).length) settings.sync
      let recovery := { recovery with truncated := recovery.discarded != 0 }
      ⟨.ok ⟨memory, some log, some path, false, settings.sync, recovery⟩, disk, notices⟩

/-- Opens the table whose log is at a path. -/
def openAt (disk : Disk) (path : Path) (flags : OpenFlags) (settings : Settings) : Opening :=
  match settings.flaw?.or flags.flaw? with
  | some flaw => ⟨.error (.settings flaw), disk, []⟩
  | none =>
    match locateFile disk path flags with
    | .error error => ⟨.error (.disk error), disk, []⟩
    | .ok (file, disk) =>
      let disk := if flags.truncate then disk.resize file 0 else disk
      ofFile disk file path flags settings

end FileTable

end KeyTable
