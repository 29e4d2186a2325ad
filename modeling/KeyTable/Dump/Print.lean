import KeyTable.Dump.Line
import KeyTable.Dump.Value
import KeyTable.Table.Basic

/-!
# Writing a table as a dump

The value of the empty key comes first, without a header.  The other records
follow in ascending order of their keys, each a header and its value.  The text
of a dump therefore depends on what the table holds, and on nothing else.

A key that no dump can hold makes the writing fail before the first of these
records is written.
-/

namespace KeyTable
namespace Dump

/-- What came of writing a table. -/
structure Printed where
  /-- Why writing failed, if it did. -/
  answer : Except Fault Unit
  /-- What was written. -/
  bytes : Bytes
  /-- The table afterwards; only its walk and its cursor have moved. -/
  table : Table
  /-- What was worth knowing. -/
  notices : List Notice

/-! ## Records -/

/-- The header line of a key, without its newline. -/
def headerText (key : Bytes) : Bytes := Ascii.atSign :: escapeKey key.dropNul

/-- A record: its header, its value lines, and the end of the last line. -/
def field (key value : Bytes) : Bytes :=
  if isBinary value then
    headerText key ++ base64Tag ++ [Ascii.newline] ++ base64Lines value ++ [Ascii.newline]
  else if value = [] then headerText key ++ [Ascii.newline]
  else headerText key ++ [Ascii.newline] ++ textLines value.dropLast ++ [Ascii.newline]

/-- The value of the empty key: its text and a newline. -/
def blob (value : Bytes) : Bytes := value.dropNul ++ [Ascii.newline]

/-- Writes the records of these keys. -/
def printFields (table : Table) : List Bytes → Printed
  | [] => ⟨.ok (), [], table, []⟩
  | key :: keys =>
    let (found, table) := table.fetch key
    match found with
    | .error fault => ⟨.error fault, [], table, []⟩
    | .ok value =>
      let others := printFields table keys
      { others with bytes := field key value ++ others.bytes }

/-! ## Tables -/

/-- Can a record not be part of a dump? -/
def isMalformed (entry : Entry) : Bool := entry.key != emptyKey && !isGoodKey entry.key

/-- The keys of these records that get a header, in ascending order. -/
def headerKeys (entries : List Entry) : List Bytes :=
  ((entries.map (·.key)).filter (· ≠ emptyKey)).mergeSort fun a b => decide (a ≤ b)

/-- Writes the records that get a header, or gives up at a malformed key. -/
def printKeyed (table : Table) : Printed :=
  let visit := table.visit isMalformed
  match visit.stoppedBy with
  | some entry =>
    ⟨.error (.malformedKey entry.key), [], visit.table, [.malformedKey entry.key]⟩
  | none => printFields visit.table (headerKeys visit.passed)

/-- Writes a table. -/
def print (table : Table) : Printed :=
  let (found, table) := table.fetch emptyKey
  let keyed := printKeyed table
  match found with
  | .error _ => keyed
  | .ok value =>
    let notices := if blobReadsBack value then [] else [.blobLost value.length]
    { keyed with bytes := blob value ++ keyed.bytes, notices := notices ++ keyed.notices }

end Dump
end KeyTable
