import KeyTable.Checksum
import KeyTable.Fault
import KeyTable.Settings
import KeyTable.MemoryTable.Record

/-!
# Tables in memory

A table is an array of buckets.  The checksum of a key says in which bucket its
record is, and a bucket is a list of records, newest first.  Before there are as
many records as buckets, the array is doubled and all records are placed anew.

Besides its records a table has two positions.  The *cursor* is on the record
that was last touched, and `current` shows it; the *walk* is where the next
`next` will look for a record.  Both are a bucket and a depth in it, so every
change to a bucket has to say what becomes of them.

An operation answers with a value or a `Fault`, and with the table it leaves.
-/

namespace KeyTable

/-- A place in a table: a bucket, and the distance from its newest record. -/
structure Position where
  /-- Number of the bucket. -/
  bucket : Nat
  /-- Number of records in front. -/
  depth : Nat
  deriving Repr, DecidableEq

/-- A table in memory. -/
structure MemoryTable where
  /-- The buckets, each a list of records. -/
  buckets : Array (List Record)
  /-- Number of records. -/
  count : Nat
  /-- Where the walk will look for its next record. -/
  walk : Position
  /-- The record touched last. -/
  cursor : Option Position
  deriving Repr

namespace MemoryTable

/-! ## Making a table -/

/-- An empty table with the number of buckets for a wish. -/
def withBuckets (wish : Nat) : MemoryTable where
  buckets := Array.replicate (bucketsFor wish) []
  count := 0
  walk := ⟨0, 0⟩
  cursor := none

/-- An empty table with the usual number of buckets. -/
def empty : MemoryTable := withBuckets defaultBuckets

/-- An empty table with the number of buckets that the settings ask for. -/
def ofSettings (settings : Settings) : MemoryTable := withBuckets settings.bucketCount

/-! ## Finding records -/

/-- The bucket of a key among so many buckets. -/
def bucketOf (key : Bytes) (bucketCount : Nat) : Nat := (crc32 key).toNat % bucketCount

/-- The records of a bucket, newest first. -/
def chain (table : MemoryTable) (bucket : Nat) : List Record := table.buckets[bucket]?.getD []

/-- All records, bucket by bucket and newest first in each. -/
def records (table : MemoryTable) : List Record := table.buckets.toList.flatten

/-- The number of buckets. -/
def bucketCount (table : MemoryTable) : Nat := table.buckets.size

/-- The record at a position. -/
def recordAt? (table : MemoryTable) (position : Position) : Option Record :=
  (table.chain position.bucket)[position.depth]?

/-- The position of a key. -/
def locate? (table : MemoryTable) (key : Bytes) : Option Position :=
  let bucket := bucketOf key table.bucketCount
  ((table.chain bucket).findIdx? (·.hasKey key)).map fun depth => ⟨bucket, depth⟩

/-- The value stored under a key. -/
def get? (table : MemoryTable) (key : Bytes) : Option Bytes := do
  let position ← table.locate? key
  let record ← table.recordAt? position
  return record.value

/-- Is there a record with this key? -/
def contains (table : MemoryTable) (key : Bytes) : Bool := (table.locate? key).isSome

/-- Is there no record at all? -/
def isEmpty (table : MemoryTable) : Bool := table.count == 0

/-- The record touched last. -/
def current (table : MemoryTable) : Option Entry := do
  let position ← table.cursor
  let record ← table.recordAt? position
  return record.entry

/-- The value of the record touched last. -/
def currentValue (table : MemoryTable) : Except Fault Bytes :=
  match table.current with
  | some entry => .ok entry.value
  | none => .error .notFound

/-! ## Changing the buckets -/

/-- Puts a record at the head of its bucket. -/
def place (buckets : Array (List Record)) (record : Record) : Array (List Record) :=
  buckets.modify (bucketOf record.key buckets.size) (record :: ·)

/-- Doubles the number of buckets and places every record anew, in the order in
which a walk visits them. -/
def split (table : MemoryTable) : MemoryTable :=
  { table with
    buckets := table.records.foldl place (Array.replicate (2 * table.bucketCount) [])
    cursor := none }

/-- Adds a record, makes room if that fills the table, and leaves the cursor on
the record. -/
def link (table : MemoryTable) (record : Record) : MemoryTable :=
  let bucket := bucketOf record.key table.bucketCount
  let linked : MemoryTable :=
    { table with
      buckets := place table.buckets record
      count := table.count + 1
      cursor := some ⟨bucket, 0⟩ }
  if linked.bucketCount ≤ linked.count then
    let grown := linked.split
    { grown with cursor := grown.locate? record.key }
  else linked

/-- Changes the record at a position. -/
def modifyAt (table : MemoryTable) (position : Position) (change : Record → Record) :
    MemoryTable :=
  { table with
    buckets := table.buckets.modify position.bucket fun chain => chain.modify position.depth change }

/-- Removes the record at a position.  A walk in the same bucket that has passed
the record steps back by one, and so still has the same record before it. -/
def unlink (table : MemoryTable) (position : Position) : MemoryTable :=
  { table with
    buckets := table.buckets.modify position.bucket fun chain => chain.eraseIdx position.depth
    count := table.count - 1
    walk :=
      if table.walk.bucket = position.bucket ∧ position.depth < table.walk.depth then
        { table.walk with depth := table.walk.depth - 1 }
      else table.walk }

/-! ## Operations -/

/-- Fetches the value of a key.  A hit moves the cursor onto the record, a miss
clears it. -/
def fetch (table : MemoryTable) (key : Bytes) : Except Fault Bytes × MemoryTable :=
  let touched := { table with cursor := table.locate? key }
  (touched.currentValue, touched)

/-- Writes bytes over the start of the value of a key, and answers with the whole
value.  The cursor moves as in `fetch`. -/
def patch (table : MemoryTable) (key bytes : Bytes) : Except Fault Bytes × MemoryTable :=
  match table.locate? key with
  | some position =>
    let patched := table.modifyAt position (·.patch bytes)
    let touched := { patched with cursor := some position }
    (touched.currentValue, touched)
  | none => (.error .notFound, { table with cursor := none })

/-- Adds a key that is absent.  If it is present, nothing changes but the cursor,
which moves onto the record that is there. -/
def insert (table : MemoryTable) (key : Bytes) (content : Content) :
    Except Fault Bytes × MemoryTable :=
  match table.locate? key with
  | some position => (.error .alreadyExists, { table with cursor := some position })
  | none =>
    let linked := table.link (Record.make key content)
    (linked.currentValue, linked)

/-- Adds a key that is absent with so many zero bytes, to be filled in. -/
def reserve (table : MemoryTable) (key : Bytes) (length : Nat) :
    Except Fault Bytes × MemoryTable :=
  table.insert key (.zeroed length)

/-- Adds a key or gives it another value.  A record that is there keeps its place
in its bucket. -/
def store (table : MemoryTable) (key : Bytes) (content : Content) :
    Except Fault Bytes × MemoryTable :=
  let stored :=
    match table.locate? key with
    | some position =>
      { table.modifyAt position (·.assign content) with cursor := some position }
    | none => table.link (Record.make key content)
  (stored.currentValue, stored)

/-- Removes a key and clears the cursor.  If the key is absent, nothing changes. -/
def delete (table : MemoryTable) (key : Bytes) : Except Fault Unit × MemoryTable :=
  match table.locate? key with
  | some position => (.ok (), { table.unlink position with cursor := none })
  | none => (.error .notFound, table)

/-- The text that describes a table to a developer. -/
def describe (table : MemoryTable) : String :=
  "MemHash \x7b count: " ++ toString table.count ++ ", buckets: " ++
    toString table.bucketCount ++ " \x7d"

end MemoryTable

end KeyTable
