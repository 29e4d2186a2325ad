import KeyTable.Dump.File
import KeyTable.Table.Text

/-!
# The dump tool

A small program on dump files, with three commands: `read` lists every record of
every set, `write` rewrites the first set in its canonical form, and `nonterm`
tries to save a table with a key that no dump can hold.

This file has the whole of it but for the command line: a command works on a
disk, prints bytes, and ends well or in a fault.
-/

namespace KeyTable
namespace DumpTool

/-! ## Listing -/

/-- A value as a listing shows it: as hexadecimal digits, or as escaped text. -/
def listValue (hex : Bool) (value : Bytes) : String :=
  if hex || Dump.isBinary value then value.toHex
  else Text.escaped (Utf8.decodeLossy value.dropNul)

/-- The line of a record in a listing. -/
def listEntry (hex : Bool) (entry : Entry) : String :=
  String.ofList (Utf8.decodeLossy entry.key.dropNul) ++ " => " ++ listValue hex entry.value ++ "\n"

/-- The lines of a set, in ascending order of the keys. -/
def listSet (hex : Bool) (table : Table) : String :=
  let entries := table.inMemory.entries.mergeSort fun a b => decide (a.key ≤ b.key)
  String.join (entries.map (listEntry hex))

/-- The listings of the sets of a stream, `limit` sets at most and `limit` lines at
most in each.  The last set need not be ended; without records it is none. -/
def listSetsUpTo (hex : Bool) : Nat → Stream → Except Fault (List String)
  | 0, _ => .ok []
  | limit + 1, stream =>
    let loaded := Dump.readSetUpTo (limit + 1) (.memory .empty) .empty stream
    match loaded.answer with
    | .error fault => .error fault
    | .ok summary =>
      if summary.endOfSet then
        (listSetsUpTo hex limit loaded.rest).map (listSet hex loaded.table :: ·)
      else if summary.records = 0 then .ok []
      else .ok [listSet hex loaded.table]

/-- The listings of the sets of a dump.  A line takes at least one byte and a set at
least one line, so the limit cuts nothing off. -/
def listSets (hex : Bool) (dump : Bytes) : Except Fault (List String) :=
  listSetsUpTo hex (dump.length + 1) (.ofBytes dump)

/-- What stands between two sets of a listing. -/
def setSeparator : String := "---\n"

/-! ## Commands -/

/-- A command of the tool. -/
inductive Command where
  /-- List every record of every set; `hex` shows all values as digits. -/
  | read (hex : Bool)
  /-- Print the first set in its canonical form. -/
  | write
  /-- Try to save a table with a malformed key. -/
  | nonterm
  deriving Repr, DecidableEq

/-- What a command comes to. -/
structure Result where
  /-- Why it failed, if it did. -/
  answer : Except Fault Unit
  /-- What it printed. -/
  output : Bytes
  /-- The disk afterwards. -/
  disk : Disk

/-- The exit code of a command: zero if it ended well, and one otherwise. -/
def Result.exitCode (result : Result) : Nat := if result.answer.isOk then 0 else 1

/-- Lists the sets of a file. -/
def read (hex : Bool) (disk : Disk) (path : Path) : Result :=
  match disk.read path with
  | .error error => ⟨.error (.disk error), [], disk⟩
  | .ok bytes =>
    match listSets hex bytes with
    | .error fault => ⟨.error fault, [], disk⟩
    | .ok sets => ⟨.ok (), Bytes.ofText (setSeparator.intercalate sets), disk⟩

/-- Prints the first set of a file; `file` is its name as the caller wrote it. -/
def write (disk : Disk) (path : Path) (file : String) : Result :=
  let restored := Dump.restoreFile none disk path
  match restored.answer with
  | .error fault => ⟨.error fault, [], restored.disk⟩
  | .ok none => ⟨.error (.corrupt (.noRecords file)), [], restored.disk⟩
  | .ok (some table) =>
    let printed := Dump.print table
    ⟨printed.answer, printed.bytes, printed.table.close restored.disk⟩

/-- A table with a key that a dump can hold and one that it cannot. -/
def unterminatedTable : MemoryTable :=
  let table := (MemoryTable.empty.store (textKey "terminated") (.given (textKey "fine"))).2
  (table.store (Bytes.ofText "nonterm") (.given (textKey "this key has no NUL"))).2

/-- Tries to save a table with a malformed key. -/
def nonterm (disk : Disk) (path : Path) : Result :=
  let saved := Dump.save (.memory unterminatedTable) disk path
  ⟨saved.answer, [], saved.disk⟩

/-- Runs a command on a file; `file` is its name as the caller wrote it. -/
def run (command : Command) (disk : Disk) (path : Path) (file : String) : Result :=
  match command with
  | .read hex => read hex disk path
  | .write => write disk path file
  | .nonterm => nonterm disk path

end DumpTool
end KeyTable
