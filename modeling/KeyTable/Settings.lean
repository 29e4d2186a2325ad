/-!
# Settings

What a caller may choose about a table: the number of buckets it starts with,
how often its log is forced to the disk, and how its file is opened.  Settings
that no table can run with are told apart by `Settings.flaw?` and
`OpenFlags.flaw?`.
-/

namespace KeyTable

/-- How often a log is forced to the disk. -/
inductive SyncPolicy where
  /-- After every change. -/
  | everyWrite
  /-- After this many changes. -/
  | every (count : Nat)
  /-- Only when the table is closed. -/
  | onClose
  deriving Repr, DecidableEq

/-- A choice that no table can run with. -/
inductive SettingsFlaw where
  /-- A table without buckets. -/
  | noBuckets
  /-- A log that would be forced to the disk after no change at all. -/
  | noSyncCount
  /-- A file that is to be made or emptied, but not written. -/
  | readOnlyTarget
  deriving Repr, DecidableEq

/-- The text of a settings flaw. -/
def SettingsFlaw.message : SettingsFlaw → String
  | .noBuckets => "initial_buckets must be at least 1"
  | .noSyncCount => "sync count must be at least 1"
  | .readOnlyTarget => "create/truncate need a writable table"

/-- The bucket count of a table made without settings. -/
def defaultBuckets : Nat := 64

/-- The bucket count for a wish: the least power of two that is not below it, and
at least two. -/
def bucketsFor (wish : Nat) : Nat := Nat.pow 2 ((max wish 2 - 1).log2 + 1)

/-- What a caller chooses about a table. -/
structure Settings where
  /-- Number of buckets asked for. -/
  initialBuckets : Nat := defaultBuckets
  /-- How often the log is forced to the disk. -/
  sync : SyncPolicy := .every 64
  deriving Repr, DecidableEq

namespace Settings

/-- The first flaw of the settings, if there is one. -/
def flaw? (settings : Settings) : Option SettingsFlaw :=
  if settings.initialBuckets = 0 then some .noBuckets
  else if settings.sync = .every 0 then some .noSyncCount
  else none

/-- The number of buckets that the table gets. -/
def bucketCount (settings : Settings) : Nat := bucketsFor settings.initialBuckets

end Settings

/-- How the file of a table is opened. -/
structure OpenFlags where
  /-- Refuse every change. -/
  readOnly : Bool
  /-- Make the file if it is missing. -/
  create : Bool
  /-- Discard what the file holds. -/
  truncate : Bool
  /-- Permission bits of a file that is made. -/
  mode : Nat
  deriving Repr, DecidableEq

namespace OpenFlags

/-- Open an existing file for reading and writing. -/
def readWrite : OpenFlags := ⟨false, false, false, 0o644⟩

/-- Open an existing file for reading. -/
def reading : OpenFlags := { readWrite with readOnly := true }

/-- Open for reading and writing, and make the file if it is missing. -/
def creating : OpenFlags := { readWrite with create := true }

/-- A table that cannot be changed can neither make its file nor empty it. -/
def flaw? (flags : OpenFlags) : Option SettingsFlaw :=
  if flags.readOnly && (flags.truncate || flags.create) then some .readOnlyTarget else none

end OpenFlags

end KeyTable
