import KeyTable.Log.Appender
import KeyTable.Log.Replay
import KeyTable.MemoryTable.Walk

/-!
# Tables with a log file

A file table is a table in memory together with a log of its changes.  A change
goes to the log first and to the memory second, so that the log never lacks a
change that a reader has seen.  Lookups and walks are answered from memory alone.

A table need not have a log: an *anonymous* table has no file, and a *read-only*
table never writes to its file and refuses every change.

Operations that can write take the disk along and hand it back in an `Outcome`.
-/

namespace KeyTable

/-- What an operation answers, and the table and the disk that it leaves. -/
structure Outcome (τ α : Type) where
  /-- The answer, or why there is none. -/
  answer : Except Fault α
  /-- The table afterwards. -/
  table : τ
  /-- The disk afterwards. -/
  disk : Disk

/-- Changes the answer of an outcome, and leaves the rest. -/
def Outcome.map {τ α β : Type} (outcome : Outcome τ α) (f : α → β) : Outcome τ β :=
  { outcome with answer := outcome.answer.map f }

/-- A table in memory with a log of its changes. -/
structure FileTable where
  /-- The records. -/
  memory : MemoryTable
  /-- The log, if changes are to be logged. -/
  log : Option Log.Appender
  /-- The path of the log file, if there is one. -/
  path : Option Path
  /-- Is every change to be refused? -/
  readOnly : Bool
  /-- How often the log is forced to the disk. -/
  policy : SyncPolicy
  /-- What was found when the log was replayed. -/
  recovery : Recovery

namespace FileTable

/-! ## Making a table without a file -/

/-- An empty table that has no file, and logs nothing. -/
def anonymous (settings : Settings) : FileTable where
  memory := .ofSettings settings
  log := none
  path := none
  readOnly := false
  policy := settings.sync
  recovery := {}

/-! ## Looking up and walking -/

/-- Replaces the records, after an operation that changes no file. -/
def answering {α : Type} (table : FileTable) (result : α × MemoryTable) : α × FileTable :=
  (result.1, { table with memory := result.2 })

/-- Fetches the value of a key. -/
def fetch (table : FileTable) (key : Bytes) : Except Fault Bytes × FileTable :=
  table.answering (table.memory.fetch key)

/-- Starts the walk anew, and goes to its first record. -/
def first (table : FileTable) : Option Entry × FileTable :=
  table.answering table.memory.first

/-- Carries the walk on to its next record. -/
def next (table : FileTable) : Option Entry × FileTable :=
  table.answering table.memory.next

/-- The record touched last. -/
def current (table : FileTable) : Option Entry := table.memory.current

/-! ## Changing the table -/

/-- Appends a change to the log, if there is one. -/
def record (table : FileTable) (disk : Disk) (change : Change) : FileTable × Disk :=
  match table.log with
  | none => (table, disk)
  | some log =>
    let (log, disk) := log.append disk (Log.encodeFrame change)
    ({ table with log := some log }, disk)

/-- Logs a change and then makes it in memory. -/
def commit {α : Type} (table : FileTable) (disk : Disk) (change : Change)
    (operation : MemoryTable → Except Fault α × MemoryTable) : Outcome FileTable α :=
  let (table, disk) := table.record disk change
  let (answer, memory) := operation table.memory
  ⟨answer, { table with memory }, disk⟩

/-- Adds a key or gives it another value. -/
def store (table : FileTable) (disk : Disk) (key : Bytes) (content : Content) :
    Outcome FileTable Bytes :=
  if table.readOnly then ⟨.error .readOnly, table, disk⟩
  else table.commit disk (.store key content.toBytes) (·.store key content)

/-- Adds a key that is absent.  If it is present, nothing is logged. -/
def insert (table : FileTable) (disk : Disk) (key : Bytes) (content : Content) :
    Outcome FileTable Bytes :=
  if table.readOnly then ⟨.error .readOnly, table, disk⟩
  else if table.memory.contains key then
    let (answer, memory) := table.memory.insert key content
    ⟨answer, { table with memory }, disk⟩
  else table.commit disk (.store key content.toBytes) (·.insert key content)

/-- Removes a key.  If it is absent, nothing is logged. -/
def delete (table : FileTable) (disk : Disk) (key : Bytes) : Outcome FileTable Unit :=
  if table.readOnly then ⟨.error .readOnly, table, disk⟩
  else if table.memory.contains key then table.commit disk (.delete key) (·.delete key)
  else ⟨.error .notFound, table, disk⟩

/-! ## Syncing and closing -/

/-- Passes all logged changes on to the file, and forces it to the disk. -/
def sync (table : FileTable) (disk : Disk) : FileTable × Disk :=
  match table.log with
  | none => (table, disk)
  | some log =>
    let (log, disk) := log.sync disk
    ({ table with log := some log }, disk)

/-- The disk after a table was given up: what its log had buffered is written. -/
def release (table : FileTable) (disk : Disk) : Disk :=
  match table.log with
  | none => disk
  | some log => (log.flush disk).2

/-- The text that describes a table to a developer; `folder` stands for the
folder that paths start from. -/
def describe (table : FileTable) (folder : String) : String :=
  let path :=
    match table.path with
    | none => "None"
    | some path => "Some(" ++ Text.quoted (folder ++ "/" ++ path.text).toList ++ ")"
  "FileHash \x7b path: " ++ path ++ ", read_only: " ++ toString table.readOnly ++ ", inner: " ++
    table.memory.describe ++ " \x7d"

end FileTable

end KeyTable
