import KeyTable.Table.Text

/-!
# Numbers in a table

Handles, integers and counters are stored under text keys as eight bytes, least
significant byte first.  A signed number is stored in two's complement.  A value
of any other length is no number, and to read it as one is a fault.
-/

namespace KeyTable

/-- The eight bytes of a number. -/
def numberValue (n : UInt64) : Bytes := LittleEndian.encode 8 n.toNat

/-- The number that eight bytes write. -/
def readNumber (shape : NumberShape) (value : Bytes) : Except Fault UInt64 :=
  if value.length = 8 then .ok (UInt64.ofNat (LittleEndian.decode value))
  else .error (.corrupt (.wrongWidth shape value.length))

namespace Table

/-- Stores a handle. -/
def storeHandle (table : Table) (disk : Disk) (key : String) (handle : UInt64) :
    Outcome Table Unit :=
  (table.store disk (textKey key) (.given (numberValue handle))).map fun _ => ()

/-- Fetches a handle. -/
def fetchHandle (table : Table) (key : String) : Except Fault UInt64 × Table :=
  let (answer, table) := table.fetch (textKey key)
  (answer.bind (readNumber .handle), table)

/-- Stores a signed number. -/
def storeInteger (table : Table) (disk : Disk) (key : String) (n : Int64) :
    Outcome Table Unit :=
  (table.store disk (textKey key) (.given (numberValue n.toUInt64))).map fun _ => ()

/-- Fetches a signed number. -/
def fetchInteger (table : Table) (key : String) : Except Fault Int64 × Table :=
  let (answer, table) := table.fetch (textKey key)
  ((answer.bind (readNumber .integer)).map UInt64.toInt64, table)

/-- Adds one to a counter, and answers with the new count.  A key that is absent
counts as zero. -/
def bump (table : Table) (disk : Disk) (key : String) : Outcome Table UInt64 :=
  let (found, table) := table.fetch (textKey key)
  let count :=
    match found with
    | .ok value => (readNumber .counter value).map (· + 1)
    | .error .notFound => .ok 1
    | .error fault => .error fault
  match count with
  | .error fault => ⟨.error fault, table, disk⟩
  | .ok n => (table.store disk (textKey key) (.given (numberValue n))).map fun _ => n

end Table

end KeyTable
