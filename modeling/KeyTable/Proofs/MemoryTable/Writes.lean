import KeyTable.Proofs.MemoryTable.Contents
import KeyTable.Proofs.MemoryTable.Offsets

/-!
# What is written to a record

In its life a record gets one value after the other.  A value that fits is written into the buffer
that is there, at an offset that depends on its length; for any other the record gets a new buffer.
Bytes may also be written over the start of the value.

* `written_spec` — however often this is done, the record keeps its key, and its value is the one
  that was written last.
* `fits_writeAll` — as long as a buffer is kept, the same lengths fit into it.
* `buffer_make`, `written_assign` — a new buffer holds key, gap and value and nothing else.
* `Attainable`, `AllAttainable` — every operation on a table in memory makes records or writes to
  those that are there, and does nothing else to them.
-/

namespace KeyTable
namespace Record

/-! ## Writing -/

/-- What can be written to a record. -/
inductive Write where
  /-- Another value, in place if it fits and in a new buffer otherwise. -/
  | assign (content : Content)
  /-- Bytes over the start of the value, as many of them as the value holds. -/
  | patch (bytes : Bytes)
  deriving Repr, DecidableEq

/-- What a write makes of a value. -/
def Write.onto (value : Bytes) : Write → Bytes
  | .assign content => content.toBytes
  | .patch bytes => patched value bytes

/-- Writes to a record. -/
def write (record : Record) : Write → Record
  | .assign content => record.assign content
  | .patch bytes => record.patch bytes

/-- Writes to a record again and again. -/
def writeAll (record : Record) (writes : List Write) : Record := writes.foldl write record

/-- The record that was made for a key, with its first value, and then written to. -/
def written (key : Bytes) (first : Content) (writes : List Write) : Record :=
  (make key first).writeAll writes

/-- The value that was written last. -/
def lastValue (first : Content) (writes : List Write) : Bytes :=
  writes.foldl Write.onto first.toBytes

variable {record : Record}

theorem Sound.write (h : record.Sound) (write : Write) : (record.write write).Sound := by
  cases write with
  | assign content => exact record.sound_assign content
  | patch bytes => exact sound_patch h bytes

theorem key_write (h : record.Sound) (write : Write) : (record.write write).key = record.key := by
  cases write with
  | assign content => exact record.key_assign content
  | patch bytes => exact key_patch h bytes

theorem value_write (h : record.Sound) (write : Write) :
    (record.write write).value = write.onto record.value := by
  cases write with
  | assign content => exact record.value_assign content
  | patch bytes => exact value_patch h bytes

/-- However often a record is written to, its key stays, and its value is the one that was written
last. -/
theorem Sound.writeAll (h : record.Sound) (writes : List Write) :
    (record.writeAll writes).Sound ∧ (record.writeAll writes).key = record.key ∧
      (record.writeAll writes).value = writes.foldl Write.onto record.value := by
  induction writes generalizing record with
  | nil => exact ⟨h, rfl, rfl⟩
  | cons write writes ih =>
    have hrest := ih (h.write write)
    rw [key_write h, value_write h] at hrest
    exact hrest

section Written

variable (key : Bytes) (first : Content) (writes : List Write)

theorem written_spec :
    (written key first writes).Sound ∧ (written key first writes).key = key ∧
      (written key first writes).value = lastValue first writes := by
  have hspec := (sound_make key first).writeAll writes
  rw [key_make, value_make] at hspec
  exact hspec

theorem written_append (more : List Write) :
    written key first (writes ++ more) = (written key first writes).writeAll more :=
  List.foldl_append

theorem lastValue_append (more : List Write) :
    lastValue first (writes ++ more) = more.foldl Write.onto (lastValue first writes) :=
  List.foldl_append

/-- The record takes its key to be as long as it is. -/
theorem keyLength_written : (written key first writes).keyLength = key.length := by
  obtain ⟨hsound, hkey, -⟩ := written_spec key first writes
  rw [← hsound.length_key, hkey]

/-- It takes its value to be as long as it is. -/
theorem valueLength_written :
    (written key first writes).valueLength = (lastValue first writes).length := by
  obtain ⟨hsound, -, hvalue⟩ := written_spec key first writes
  rw [← hsound.length_value, hvalue]

end Written

/-! ## The buffer that is there -/

/-- Is this written into the buffer that is there? -/
def inPlace (record : Record) : Write → Bool
  | .assign content => record.fits content.length
  | .patch _ => true

/-- Is all of this written into the buffer that is there? -/
def allInPlace (record : Record) : List Write → Bool
  | [] => true
  | write :: writes => record.inPlace write && (record.write write).allInPlace writes

/-- What is written in place leaves the buffer as long as it is. -/
theorem length_buffer_write (h : record.Sound) {write : Write}
    (hplace : record.inPlace write = true) :
    (record.write write).buffer.length = record.buffer.length := by
  cases write with
  | assign content =>
    have hassign : record.assign content = record.overwrite content := if_pos hplace
    rw [Record.write, hassign]
    exact length_buffer_overwrite hplace
  | patch bytes => exact length_buffer_patch h bytes

theorem keyLength_write (h : record.Sound) (write : Write) :
    (record.write write).keyLength = record.keyLength := by
  rw [← (h.write write).length_key, key_write h, h.length_key]

/-- The same lengths fit after a write in place. -/
theorem fits_write (h : record.Sound) {write : Write} (hplace : record.inPlace write = true)
    (length : Nat) : (record.write write).fits length = record.fits length := by
  rw [fits, fits, keyLength_write h, length_buffer_write h hplace]

/-- As long as the buffer is kept, the same lengths fit. -/
theorem fits_writeAll (h : record.Sound) {writes : List Write}
    (hplace : record.allInPlace writes = true) (length : Nat) :
    (record.writeAll writes).fits length = record.fits length := by
  induction writes generalizing record with
  | nil => rfl
  | cons write writes ih =>
    obtain ⟨hfirst, hrest⟩ := Bool.and_eq_true_iff.mp hplace
    exact (ih (h.write write) hrest).trans (fits_write h hfirst length)

/-- A value that is there fits, and so does every shorter one. -/
theorem Sound.fits_of_le (h : record.Sound) {length : Nat} (hle : length ≤ record.valueLength) :
    record.fits length = true := by
  rw [fits_iff]
  have hoffset := valueOffset_mono record.keyLength hle
  exact Nat.le_trans (Nat.add_le_add hoffset hle) h

/-! ## A new buffer -/

/-- A new buffer holds the key, the gap and the value. -/
theorem buffer_make (key : Bytes) (content : Content) :
    (make key content).buffer =
      key ++ Bytes.zeros (valueOffset key.length content.length - key.length) ++
        content.toBytes := by
  have hoffset := le_valueOffset key.length content.length
  have hkey : key.take (valueOffset key.length content.length) = key :=
    List.take_of_length_le hoffset
  have hbehind : key.drop (valueOffset key.length content.length + content.toBytes.length) = [] :=
    List.drop_eq_nil_of_le (Nat.le_trans hoffset (Nat.le_add_right _ _))
  rw [make, Bytes.overwrite, Bytes.resize, hkey, hbehind, List.append_nil]

/-- A value that does not fit makes the record a new one. -/
theorem written_assign (key : Bytes) (first : Content) (writes : List Write) {content : Content}
    (h : (written key first writes).fits content.length = false) :
    written key first (writes ++ [.assign content]) = make key content := by
  rw [written_append]
  show (written key first writes).assign content = make key content
  rw [assign, if_neg (ne_true_of_eq_false h), (written_spec key first writes).2.1]

/-! ## Records of tables -/

/-- Was this record made for some key, and then written to? -/
def Attainable (record : Record) : Prop :=
  ∃ key first writes, record = written key first writes

theorem attainable_make (key : Bytes) (content : Content) : (make key content).Attainable :=
  ⟨key, content, [], rfl⟩

theorem Attainable.write (h : record.Attainable) (write : Write) :
    (record.write write).Attainable := by
  obtain ⟨key, first, writes, rfl⟩ := h
  exact ⟨key, first, writes ++ [write], (written_append key first writes [write]).symm⟩

end Record

namespace MemoryTable

/-- Was every record of a table made for some key, and then written to? -/
def AllAttainable (table : MemoryTable) : Prop := ∀ record ∈ table.records, record.Attainable

theorem allAttainable_withBuckets (wish : Nat) : (withBuckets wish).AllAttainable := by
  intro record hmem
  rw [records_withBuckets] at hmem
  exact absurd hmem List.not_mem_nil

namespace AllAttainable

variable {table : MemoryTable} (h : table.AllAttainable)
include h

theorem congr {other : MemoryTable} (hsame : SameRecords other table) : other.AllAttainable := by
  intro record hmem
  exact h record (hsame.records_eq ▸ hmem)

theorem link (hsound : table.Sound) (key : Bytes) (content : Content) :
    (table.link (Record.make key content)).AllAttainable := by
  intro record hmem
  rcases List.mem_cons.mp ((perm_link hsound.size_pos _).mem_iff.mp hmem) with rfl | hold
  · exact Record.attainable_make key content
  · exact h record hold

theorem modifyAt {position : Position} {record : Record}
    (hat : table.recordAt? position = some record) (write : Record.Write) :
    (table.modifyAt position (·.write write)).AllAttainable := by
  intro other hmem
  rcases mem_records_modifyAt hat hmem with rfl | hold
  · exact (h record (mem_records_of_recordAt? hat)).write write
  · exact h other hold

theorem insert (hsound : table.Sound) (key : Bytes) (content : Content) :
    (table.insert key content).2.AllAttainable := by
  unfold MemoryTable.insert
  cases table.locate? key with
  | none => exact h.link hsound key content
  | some position => exact h.congr ⟨rfl, rfl⟩

theorem store (hsound : table.Sound) (key : Bytes) (content : Content) :
    (table.store key content).2.AllAttainable := by
  unfold MemoryTable.store
  cases hlocate : table.locate? key with
  | none => exact h.link hsound key content
  | some position =>
    obtain ⟨record, hat, -⟩ := hsound.exists_of_locate? hlocate
    exact (h.modifyAt hat (.assign content)).congr ⟨rfl, rfl⟩

theorem patch (hsound : table.Sound) (key bytes : Bytes) :
    (table.patch key bytes).2.AllAttainable := by
  unfold MemoryTable.patch
  cases hlocate : table.locate? key with
  | none => exact h.congr ⟨rfl, rfl⟩
  | some position =>
    obtain ⟨record, hat, -⟩ := hsound.exists_of_locate? hlocate
    exact (h.modifyAt hat (.patch bytes)).congr ⟨rfl, rfl⟩

theorem delete (hsound : table.Sound) (key : Bytes) :
    (table.delete key).2.AllAttainable := by
  unfold MemoryTable.delete
  cases hlocate : table.locate? key with
  | none => exact h
  | some position =>
    obtain ⟨record, hat, -⟩ := hsound.exists_of_locate? hlocate
    intro other hmem
    exact h other (mem_records_unlink hat hmem)

end AllAttainable
end MemoryTable
end KeyTable
