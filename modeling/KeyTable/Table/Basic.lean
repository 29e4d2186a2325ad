import KeyTable.FileTable.Opening
import KeyTable.FileTable.Compaction

/-!
# Tables of either kind

What a caller can do with a table without knowing its kind.  Every operation
goes to the operation of the same name of the table's kind, with two exceptions:
no kind can be walked backwards, and only a table in memory keeps a count of its
records, while a file table has to walk to count them.
-/

namespace KeyTable

/-- A table of either kind. -/
inductive Table where
  /-- A table in memory alone. -/
  | memory (table : MemoryTable)
  /-- A table that can have a log file. -/
  | file (table : FileTable)

namespace Table

/-! ## Making and giving up tables -/

/-- Makes an empty table of a kind. -/
def create (kind : Kind) (settings : Settings) : Except Fault Table :=
  match settings.flaw? with
  | some flaw => .error (.settings flaw)
  | none =>
    match kind with
    | .memory => .ok (.memory (.ofSettings settings))
    | .file => .ok (.file (.anonymous settings))

/-- What came of opening a table of either kind. -/
structure Opened where
  /-- The table, or why it cannot be opened. -/
  answer : Except Fault Table
  /-- The disk afterwards. -/
  disk : Disk
  /-- What was worth knowing. -/
  notices : List Notice

/-- Opens the table of a kind at a path.  Tables in memory cannot be opened. -/
def openAt (kind : Kind) (disk : Disk) (path : Path) (flags : OpenFlags) (settings : Settings) :
    Opened :=
  match kind with
  | .memory => ⟨.error (.unsupported .memory), disk, []⟩
  | .file =>
    let opening := FileTable.openAt disk path flags settings
    ⟨opening.answer.map .file, opening.disk, opening.notices⟩

/-- The disk after a table was given up. -/
def release (table : Table) (disk : Disk) : Disk :=
  match table with
  | .memory _ => disk
  | .file table => table.release disk

/-- The disk after a table was closed: all its changes are in its file, and
forced to the disk. -/
def close (table : Table) (disk : Disk) : Disk :=
  match table with
  | .memory _ => disk
  | .file table =>
    let (table, disk) := table.sync disk
    table.release disk

/-! ## Operations -/

/-- The kind of a table. -/
def kind : Table → Kind
  | .memory _ => .memory
  | .file _ => .file

/-- The records of a table, whatever its kind. -/
def inMemory : Table → MemoryTable
  | .memory table => table
  | .file table => table.memory

/-- Fetches the value of a key. -/
def fetch (table : Table) (key : Bytes) : Except Fault Bytes × Table :=
  match table with
  | .memory table => (table.fetch key).map id .memory
  | .file table => (table.fetch key).map id .file

/-- Adds a key or gives it another value. -/
def store (table : Table) (disk : Disk) (key : Bytes) (content : Content) :
    Outcome Table Bytes :=
  match table with
  | .memory table =>
    let (answer, table) := table.store key content
    ⟨answer, .memory table, disk⟩
  | .file table =>
    let outcome := table.store disk key content
    ⟨outcome.answer, .file outcome.table, outcome.disk⟩

/-- Adds a key that is absent. -/
def insert (table : Table) (disk : Disk) (key : Bytes) (content : Content) :
    Outcome Table Bytes :=
  match table with
  | .memory table =>
    let (answer, table) := table.insert key content
    ⟨answer, .memory table, disk⟩
  | .file table =>
    let outcome := table.insert disk key content
    ⟨outcome.answer, .file outcome.table, outcome.disk⟩

/-- Removes a key that is present. -/
def delete (table : Table) (disk : Disk) (key : Bytes) : Outcome Table Unit :=
  match table with
  | .memory table =>
    let (answer, table) := table.delete key
    ⟨answer, .memory table, disk⟩
  | .file table =>
    let outcome := table.delete disk key
    ⟨outcome.answer, .file outcome.table, outcome.disk⟩

/-- Starts the walk anew, and goes to its first record. -/
def first : Table → Option Entry × Table
  | .memory table => table.first.map id .memory
  | .file table => table.first.map id .file

/-- Carries the walk on to its next record. -/
def next : Table → Option Entry × Table
  | .memory table => table.next.map id .memory
  | .file table => table.next.map id .file

/-- Starts a walk backwards, which no kind of table supports. -/
def last (table : Table) : Except Fault (Option Entry) := .error (.unsupported table.kind)

/-- Carries a walk backwards on, which no kind of table supports. -/
def prev (table : Table) : Except Fault (Option Entry) := .error (.unsupported table.kind)

/-- The record touched last. -/
def current (table : Table) : Option Entry := table.inMemory.current

/-! ## Whole walks -/

/-- What a walk has come across. -/
structure Visit where
  /-- The records it passed, in order. -/
  passed : List Entry
  /-- The record at which it was stopped, if it was. -/
  stoppedBy : Option Entry
  /-- The table afterwards. -/
  table : Table

/-- Goes on with a walk that has come to `entry`, for at most so many steps, up to
a record that is to stop it. -/
def visitFrom (stop : Entry → Bool) : Nat → Option Entry × Table → Visit
  | _, (none, table) => ⟨[], none, table⟩
  | 0, (some _, table) => ⟨[], none, table⟩
  | steps + 1, (some entry, table) =>
    if stop entry then ⟨[], some entry, table⟩
    else
      let visit := visitFrom stop steps table.next
      { visit with passed := entry :: visit.passed }

/-- Walks through the whole table, up to a record that is to stop the walk. -/
def visit (table : Table) (stop : Entry → Bool) : Visit :=
  visitFrom stop (table.inMemory.records.length + 1) table.first

/-- Walks through the whole table, and lists its records. -/
def each (table : Table) : List Entry × Table :=
  let visit := table.visit fun _ => false
  (visit.passed, visit.table)

/-- The number of records.  A file table walks to count them. -/
def count (table : Table) : Nat × Table :=
  match table with
  | .memory records => (records.count, table)
  | .file _ =>
    let (entries, table) := table.each
    (entries.length, table)

end Table

end KeyTable
