import KeyTable.MemoryTable.Basic

/-!
# Walking a table

There are two ways to visit every record.

* The **walk** is part of the table: `first` starts it and `next` carries it on.
  It goes through the buckets in ascending order and through each of them from
  its newest record to its oldest, and it moves the cursor along.
* A **scan** is a value of its own: it holds the buckets still to be visited and
  the number of records to come, and leaves the table as it is.  It may be called
  behind its end, and finds no record there.
-/

namespace KeyTable

namespace MemoryTable

/-! ## The walk -/

/-- Looks for a record from a position on, through at most so many buckets.  The
answer is the record's position, if there is one, and where to look on. -/
def seek (buckets : Array (List Record)) : Nat → Position → Option Position × Position
  | 0, walk => (none, walk)
  | remaining + 1, walk =>
    if walk.depth < (buckets[walk.bucket]?.getD []).length then
      (some walk, { walk with depth := walk.depth + 1 })
    else seek buckets remaining ⟨walk.bucket + 1, 0⟩

/-- Carries the walk on to its next record, and moves the cursor there.  At the
end of the walk the cursor is cleared. -/
def next (table : MemoryTable) : Option Entry × MemoryTable :=
  let (cursor, walk) := seek table.buckets (table.bucketCount - table.walk.bucket) table.walk
  let moved := { table with walk, cursor }
  (moved.current, moved)

/-- Starts the walk anew, and goes to its first record. -/
def first (table : MemoryTable) : Option Entry × MemoryTable :=
  { table with walk := ⟨0, 0⟩ }.next

/-! ## Scans -/

/-- A visit of all records that leaves the table as it is. -/
structure Scan where
  /-- What is left of the bucket that is being visited. -/
  chain : List Record
  /-- The buckets behind it. -/
  buckets : List (List Record)
  /-- Number of records to come. -/
  remaining : Nat

namespace Scan

/-- Opens buckets until one of them has a record. -/
def openBucket? (remaining : Nat) : List (List Record) → Option (Entry × Scan)
  | [] => none
  | [] :: buckets => openBucket? remaining buckets
  | (record :: chain) :: buckets => some (record.entry, ⟨chain, buckets, remaining - 1⟩)

/-- The next record of a scan, and the rest of the scan. -/
def next? (scan : Scan) : Option (Entry × Scan) :=
  match scan.chain with
  | record :: chain => some (record.entry, { scan with chain, remaining := scan.remaining - 1 })
  | [] => openBucket? scan.remaining scan.buckets

/-- One more call of a scan.  When it finds no record, it has opened all buckets. -/
def call (scan : Scan) : Option Entry × Scan :=
  match scan.next? with
  | some (entry, rest) => (some entry, rest)
  | none => (none, ⟨[], [], scan.remaining⟩)

/-- The next so many records of a scan, and the rest of the scan. -/
def take : Nat → Scan → List Entry × Scan
  | 0, scan => ([], scan)
  | n + 1, scan =>
    match scan.next? with
    | none => ([], scan)
    | some (entry, rest) =>
      let (entries, rest) := take n rest
      (entry :: entries, rest)

end Scan

/-- A scan of all records. -/
def scan (table : MemoryTable) : Scan := ⟨[], table.buckets.toList, table.count⟩

/-- All records as a table shows them, in the order of a walk. -/
def entries (table : MemoryTable) : List Entry := table.records.map Record.entry

end MemoryTable

end KeyTable
