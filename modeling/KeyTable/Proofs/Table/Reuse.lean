import KeyTable.Proofs.MemoryTable.Writes
import KeyTable.Proofs.Table.JustOpened

/-!
# Buffers that are used again

A value is stored over the old one in the buffer that is there, if it fits, and the place where it
starts moves with its length.  Nobody can tell: whatever was written to a record, it has its key
and the value that was written last, as a record that was just made has them.

* `Made.inMemory_of_worked` — what every change to records keeps holds of every table.
* `Made.allAttainable` — the records of every table were made and written to, and nothing else.
* `ReuseUnseen` — what can be said of such a record.
* `reuse_unseen` — all of this, together with where a value starts.
-/

namespace KeyTable
namespace Table

open MemoryTable (AllAttainable)
open Record (Write written lastValue)

/-! ## The records of every table -/

section Kept

variable {P : MemoryTable → Prop} {table : MemoryTable}

/-- What each change to records keeps is kept by the changes of a log. -/
theorem foldl_apply_of_worked
    (hworked : ∀ {table later : MemoryTable}, table.Sound → P table → Worked table later → P later)
    (hsound : table.Sound) (h : P table) (changes : List Change) :
    P (changes.foldl MemoryTable.apply table) := by
  induction changes generalizing table with
  | nil => exact h
  | cons change changes ih =>
    have hchange : Worked table (table.apply change) := by
      cases change with
      | store key value => exact .stored key (.given value)
      | delete key => exact .deleted key
    exact ih (hsound.apply change) (hworked hsound h hchange)

/-- What holds of every new table in memory, and is kept by each change to its records, holds of
every table. -/
theorem Made.inMemory_of_worked (hnew : ∀ wish, P (.withBuckets wish))
    (hworked : ∀ {table later : MemoryTable}, table.Sound → P table → Worked table later → P later)
    {table : Table} (h : table.Made) : P table.inMemory := by
  induction h with
  | memory settings => exact hnew _
  | file settings => exact hnew _
  | opened h =>
    obtain ⟨file, rfl, hopen⟩ := exists_file_of_openAt h
    obtain ⟨-, -, number, located, -, hlocated⟩ := FileTable.exists_located_of_openAt hopen
    rw [hlocated] at hopen
    obtain ⟨changes, -, -, hmemory⟩ := replayed_of_ofFile hopen
    show P file.memory
    rw [hmemory]
    exact foldl_apply_of_worked hworked (MemoryTable.sound_withBuckets _) (hnew _) changes
  | step hmade hstep ih => exact hworked hmade.sound ih (hstep.worked hmade.sound)

end Kept

/-- No operation does anything to records but to make them and to write to them. -/
theorem Worked.allAttainable {table later : MemoryTable} (hworked : Worked table later)
    (hsound : table.Sound) (h : table.AllAttainable) : later.AllAttainable := by
  cases hworked with
  | looked hsame => exact h.congr hsame
  | stored key content => exact h.store hsound key content
  | inserted key content => exact h.insert hsound key content
  | deleted key => exact h.delete hsound key
  | patched key bytes => exact h.patch hsound key bytes

/-- So the records of every table were made for some key, and then written to. -/
theorem Made.allAttainable {table : Table} (h : table.Made) : table.inMemory.AllAttainable :=
  h.inMemory_of_worked MemoryTable.allAttainable_withBuckets
    fun hsound hattainable hworked => hworked.allAttainable hsound hattainable

/-! ## What shows of a record -/

/-- What can be said of a record that was made for a key, whatever was written to it since then. -/
structure ReuseUnseen (key : Bytes) (first : Content) (writes : List Write) : Prop where
  /-- Its key is the one that it was made for. -/
  key_eq : (written key first writes).key = key
  /-- It is found under this key and under no other. -/
  hasKey_iff : ∀ other, (written key first writes).hasKey other = true ↔ key = other
  /-- Its value is the one that was written last. -/
  value_eq : (written key first writes).value = lastValue first writes
  /-- In place of the value there can be any bytes of its length. -/
  edited : ∀ bytes : Bytes, bytes.length = (lastValue first writes).length →
    (written key first (writes ++ [.patch bytes])).value = bytes
  /-- Whatever is written next, it shows what a record shows that was just made with its value. -/
  as_fresh : ∀ more, (written key first (writes ++ more)).entry =
    (written key (.given (lastValue first writes)) more).entry
  /-- The value starts behind the key and ends within the buffer. -/
  within : key.length ≤ (written key first writes).offset ∧
    (written key first writes).offset + (lastValue first writes).length ≤
      (written key first writes).buffer.length
  /-- A length fits exactly if a value of this length would end within the buffer. -/
  fits_iff : ∀ length, (written key first writes).fits length = true ↔
    valueOffset key.length length + length ≤ (written key first writes).buffer.length
  /-- A value that fits is written within the buffer, which stays as long as it is. -/
  in_place : ∀ write, (written key first writes).inPlace write = true →
    (written key first (writes ++ [write])).buffer.length =
      (written key first writes).buffer.length
  /-- Any other value makes the record a new one. -/
  new_record : ∀ content, (written key first writes).fits content.length = false →
    written key first (writes ++ [.assign content]) = .make key content
  /-- As long as a buffer is kept, every length fits that was ever stored in it, and so does every
  smaller one. -/
  room : ∀ earlier later, writes = earlier ++ later →
    (written key first earlier).allInPlace later = true →
    ∀ length ≤ (lastValue first earlier).length,
      (written key first writes).fits length = true

theorem reuseUnseen_of_written (key : Bytes) (first : Content) (writes : List Write) :
    ReuseUnseen key first writes where
  key_eq := (Record.written_spec key first writes).2.1
  hasKey_iff := by
    intro other
    obtain ⟨hsound, hkey, -⟩ := Record.written_spec key first writes
    rw [hsound.hasKey_iff, hkey]
  value_eq := (Record.written_spec key first writes).2.2
  edited := by
    intro bytes hlength
    rw [(Record.written_spec key first _).2.2, Record.lastValue_append]
    exact Record.patched_of_length_eq hlength
  as_fresh := by
    intro more
    obtain ⟨-, hkey, hvalue⟩ := Record.written_spec key first (writes ++ more)
    obtain ⟨-, hfreshKey, hfreshValue⟩ :=
      Record.written_spec key (.given (lastValue first writes)) more
    rw [Record.entry, Record.entry, hkey, hvalue, hfreshKey, hfreshValue,
      Record.lastValue_append]
    rfl
  within := by
    rw [← Record.keyLength_written key first writes,
      ← Record.valueLength_written key first writes]
    exact ⟨Record.keyLength_le_offset _, (Record.written_spec key first writes).1⟩
  fits_iff := by
    intro length
    rw [Record.fits_iff, Record.keyLength_written]
  in_place := by
    intro write hplace
    rw [Record.written_append]
    exact Record.length_buffer_write (Record.written_spec key first writes).1 hplace
  new_record := by
    intro content hfits
    exact Record.written_assign key first writes hfits
  room := by
    rintro earlier later rfl hplace length hle
    have hsound := (Record.written_spec key first earlier).1
    rw [← Record.valueLength_written key first earlier] at hle
    rw [Record.written_append, Record.fits_writeAll hsound hplace]
    exact hsound.fits_of_le hle

/-- That a buffer is used again shows nowhere, in whatever record of whatever table. -/
theorem reuse_unseen :
    (∀ key first writes, ReuseUnseen key first writes) ∧
      (∀ table : Table, table.Made → ∀ record ∈ table.inMemory.records, record.Attainable) ∧
      (∀ key content, (Record.make key content).buffer =
        key ++ Bytes.zeros (valueOffset key.length content.length - key.length) ++
          content.toBytes) ∧
      (∀ keyLength valueLength, IsLeast
        {offset | valueAlignment valueLength ∣ offset ∧ keyLength ≤ offset}
        (valueOffset keyLength valueLength)) ∧
      ∀ keyLength valueLength : UInt64,
        keyLength.toNat + (valueAlignment valueLength.toNat - 1) < 2 ^ 64 →
        (wordOffset keyLength valueLength).toNat =
          valueOffset keyLength.toNat valueLength.toNat :=
  ⟨reuseUnseen_of_written, fun _ hmade => hmade.allAttainable, Record.buffer_make,
    isLeast_valueOffset, fun _ _ h => toNat_wordOffset h⟩

/-- In a buffer that was made for ten bytes, a value of three starts earlier, and one of ten bytes
fits again behind it; one of sixty-four bytes gets a new buffer. -/
theorem reuse_unseen_regrown :
    let first : Content := .given [48, 49, 50, 51, 52, 53, 54, 55, 56, 57]
    let writes : List Write := [.assign (.given [97, 98, 99]), .patch [65], .assign (.zeroed 10)]
    let table := ((Table.memory (.ofSettings {})).store .empty [107] (.zeroed 10)).table
    (written [107] first []).allInPlace writes = true ∧
      (written [107] first (writes.take 2)).entry = ⟨[107], [65, 98, 99]⟩ ∧
      (written [107] first (writes.take 2)).offset = 2 ∧
      (written [107] first writes).entry = ⟨[107], Bytes.zeros 10⟩ ∧
      (written [107] first writes).offset = 8 ∧
      (written [107] first writes).fits 10 = true ∧
      written [107] first (writes ++ [.assign (.zeroed 64)]) = .make [107] (.zeroed 64) ∧
      table.inMemory.count = 1 ∧ (∀ record ∈ table.inMemory.records, record.Attainable) ∧
      (wordOffset 9 100).toNat = valueOffset 9 100 := by
  intro first writes table
  obtain ⟨hseen, htables, -, -, hword⟩ := reuse_unseen
  have hplace : (written [107] first []).allInPlace writes = true := by decide
  have hsize : (written [107] first writes).fits (Content.zeroed 64).length = false := by decide
  have hmade : table.Made := (Made.memory {}).step (.store ..)
  have hentry : ∀ later, (written [107] first later).entry = ⟨[107], lastValue first later⟩ :=
    fun later => congrArg₂ Entry.mk (hseen _ _ _).key_eq (hseen _ _ _).value_eq
  have hshort : (written [107] first (writes.take 2)).offset = 2 := by decide
  have hlong : (written [107] first writes).offset = 8 := by decide
  have hroom := (hseen [107] first writes).room [] writes rfl hplace 10 (by decide)
  have hcount : table.inMemory.count = 1 := by decide +kernel
  have hwords := hword 9 100 (by decide)
  have hone := hentry (writes.take 2)
  have htwo := hentry writes
  exact ⟨hplace, hone, hshort, htwo, hlong, hroom, (hseen _ _ _).new_record _ hsize, hcount,
    htables table hmade, hwords⟩

end Table
end KeyTable
