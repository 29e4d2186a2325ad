import KeyTable.Disk.Basic
import KeyTable.Settings
import KeyTable.Text.Utf8
import KeyTable.Text.Quoted

/-!
# Faults

Why an operation on a table, a dump or a log fails.  Each cause is a value; its
wording is in `Fault.message` and the functions that it calls.
-/

namespace KeyTable

/-- The two kinds of table. -/
inductive Kind where
  /-- A table in memory alone. -/
  | memory
  /-- A table that can have a log file. -/
  | file
  deriving Repr, DecidableEq

/-- The name of a kind of table. -/
def Kind.name : Kind → String
  | .memory => "memory"
  | .file => "file"

/-- The shapes of a value that is a number of eight bytes. -/
inductive NumberShape where
  /-- A machine word. -/
  | handle
  /-- A signed number. -/
  | integer
  /-- A number that only grows. -/
  | counter
  deriving Repr, DecidableEq

/-- The name of a number shape. -/
def NumberShape.name : NumberShape → String
  | .handle => "handle"
  | .integer => "integer"
  | .counter => "counter"

/-- What is wrong with stored data. -/
inductive Corruption where
  /-- A log does not open with the magic bytes; these stand in their place. -/
  | badMagic (start : Bytes)
  /-- A log is of a version that cannot be read. -/
  | badVersion (version : Nat)
  /-- The value of a key was to be a text and is not. -/
  | notText (key : String) (flaw : Utf8.Flaw)
  /-- A value was to be a number of eight bytes, and has this many. -/
  | wrongWidth (shape : NumberShape) (found : Nat)
  /-- A dump that was to hold records has none. -/
  | noRecords (file : String)
  deriving Repr, DecidableEq

/-- The text of a list of byte values. -/
def byteListText (bytes : Bytes) : String :=
  "[" ++ ", ".intercalate (bytes.map fun b => toString b.toNat) ++ "]"

/-- The text of a corruption. -/
def Corruption.message : Corruption → String
  | .badMagic start => "not a kvhash log: bad magic " ++ byteListText start
  | .badVersion version => s!"unsupported log version: {version}"
  | .notText key flaw => "value of " ++ Text.quoted key.toList ++ " is not UTF-8: " ++ flaw.message
  | .wrongWidth shape found => s!"{shape.name} value must be 8 bytes, found {found}"
  | .noRecords file => file ++ " holds no records"

/-- Why an operation fails. -/
inductive Fault where
  /-- The disk refused. -/
  | disk (error : DiskError)
  /-- The key is absent. -/
  | notFound
  /-- The key is present. -/
  | alreadyExists
  /-- Tables of this kind do not have the operation. -/
  | unsupported (kind : Kind)
  /-- The table refuses every change. -/
  | readOnly
  /-- The key cannot be written to a dump. -/
  | malformedKey (key : Bytes)
  /-- Stored data is not what it should be. -/
  | corrupt (corruption : Corruption)
  /-- No table can run with these settings. -/
  | settings (flaw : SettingsFlaw)
  deriving Repr, DecidableEq

/-- The text of a fault. -/
def Fault.message : Fault → String
  | .disk error => "IO error: " ++ error.message
  | .notFound => "Key not found"
  | .alreadyExists => "Key already exists"
  | .unsupported kind => s!"Operation not supported by {kind.name} tables"
  | .readOnly => "Table is read-only"
  | .malformedKey key =>
    "Malformed key: " ++ Text.quoted (Utf8.decodeLossy key) ++ " is not a NUL-terminated string"
  | .corrupt corruption => "Corrupt data: " ++ corruption.message
  | .settings flaw => "Configuration error: " ++ flaw.message

end KeyTable
