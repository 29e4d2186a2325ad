import KeyTable.Content

/-!
# Records

A record keeps its key and its value in one buffer: the key, a gap, the value.
The gap brings a value that is long enough to hold a number to an offset that is
a multiple of the number's size.  The offset therefore depends on the value's
length, and moves when a value of another length is written over the old one.

A buffer never shrinks.  As long as a new value *fits*, it is written in place;
otherwise the record gets a fresh buffer.
-/

namespace KeyTable

/-! ## Layout -/

/-- What the offset of a value of this length is a multiple of. -/
def valueAlignment (valueLength : Nat) : Nat :=
  if 8 ≤ valueLength then 8
  else if 4 ≤ valueLength then 4
  else if 2 ≤ valueLength then 2
  else 1

/-- The least multiple of `step` that is at least `n`. -/
def roundUp (n step : Nat) : Nat := (n + step - 1) / step * step

/-- Where the value starts in the buffer. -/
def valueOffset (keyLength valueLength : Nat) : Nat :=
  roundUp keyLength (valueAlignment valueLength)

/-! ## Records -/

/-- A record as a table shows it. -/
structure Entry where
  /-- The key. -/
  key : Bytes
  /-- The value stored under the key. -/
  value : Bytes
  deriving Repr, DecidableEq

/-- A key and its value in one buffer. -/
structure Record where
  /-- Number of bytes of the key. -/
  keyLength : Nat
  /-- Number of bytes of the value. -/
  valueLength : Nat
  /-- Key, gap and value; it may be longer than these need. -/
  buffer : Bytes
  deriving Repr, DecidableEq

namespace Record

/-- A record with a buffer that is just long enough. -/
def make (key : Bytes) (content : Content) : Record where
  keyLength := key.length
  valueLength := content.length
  buffer := key.overwrite (valueOffset key.length content.length) content.toBytes

/-- Where the value of a record starts. -/
def offset (record : Record) : Nat := valueOffset record.keyLength record.valueLength

/-- The key of a record. -/
def key (record : Record) : Bytes := record.buffer.take record.keyLength

/-- The value of a record. -/
def value (record : Record) : Bytes :=
  (record.buffer.drop record.offset).take record.valueLength

/-- What a table shows of a record. -/
def entry (record : Record) : Entry := ⟨record.key, record.value⟩

/-- Has the record this key? -/
def hasKey (record : Record) (key : Bytes) : Bool :=
  record.keyLength == key.length && record.key == key

/-- Is there room in the buffer for a value of this length? -/
def fits (record : Record) (valueLength : Nat) : Bool :=
  valueOffset record.keyLength valueLength + valueLength ≤ record.buffer.length

/-- Writes a value that fits into the buffer. -/
def overwrite (record : Record) (content : Content) : Record :=
  let start := valueOffset record.keyLength content.length
  { record with
    valueLength := content.length
    buffer := record.buffer.overwrite start content.toBytes }

/-- Gives a record another value, in place if it fits and in a fresh buffer
otherwise. -/
def assign (record : Record) (content : Content) : Record :=
  if record.fits content.length then record.overwrite content else make record.key content

/-- Writes bytes over the start of the value, as many of them as the value
holds. -/
def patch (record : Record) (bytes : Bytes) : Record :=
  { record with
    buffer := record.buffer.overwrite record.offset (bytes.take record.valueLength) }

end Record

end KeyTable
