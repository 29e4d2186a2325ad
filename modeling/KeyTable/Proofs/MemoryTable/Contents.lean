import KeyTable.Log.Replay
import KeyTable.Proofs.Contents
import KeyTable.Proofs.MemoryTable.Sound

/-!
# What a table in memory holds

The contents of a table are the map that its records give.  Looking up answers
from this map (`Sound.lookup_contents`), and every operation does to it what its
name says, whether it overwrites a buffer, gives a record a fresh one, or splits
the buckets.

* `Sound.insert_of_mem`, `Sound.insert_of_notMem` — adding a key that is absent.
* `Sound.store_spec` — a key always gets the value that is stored.
* `Sound.delete_of_mem`, `Sound.delete_of_notMem` — removing a key.
* `Sound.fetch_spec`, `Sound.patch_of_lookup`, `Sound.patch_of_notMem` — reading
  a value, and writing into it.
* `Sound.contents_apply` — making a logged change.
-/

namespace KeyTable
namespace MemoryTable

/-- What a table holds. -/
def contents (table : MemoryTable) : Contents := .ofEntries table.entries

theorem keys_entries (table : MemoryTable) :
    table.entries.map Entry.key = table.records.map Record.key := by
  rw [entries, List.map_map]
  rfl

variable {table : MemoryTable}

theorem Sound.nodup_entries (h : table.Sound) : (table.entries.map Entry.key).Nodup := by
  rw [keys_entries]
  exact h.nodup

theorem SameRecords.entries_eq {other : MemoryTable} (h : SameRecords table other) :
    table.entries = other.entries := by
  rw [entries, entries, h.records_eq]

theorem SameRecords.contents_eq {other : MemoryTable} (h : SameRecords table other) :
    table.contents = other.contents := by
  rw [contents, contents, h.entries_eq]

theorem contents_withBuckets (wish : Nat) : (withBuckets wish).contents = ∅ := by
  simp [contents, entries, records_withBuckets]

theorem Sound.length_entries (h : table.Sound) : table.entries.length = table.count := by
  rw [h.counted, entries, List.length_map]

/-- The count of a table is the size of its contents. -/
theorem Sound.size_contents (h : table.Sound) : table.contents.size = table.count := by
  rw [contents, Contents.size_ofEntries h.nodup_entries, h.length_entries]

/-! ## Looking up -/

theorem mem_entries_of_mem {record : Record} (h : record ∈ table.records) :
    record.entry ∈ table.entries :=
  List.mem_map_of_mem h

/-- A key of the contents is the key of a record. -/
theorem mem_contents_iff {key : Bytes} :
    key ∈ table.contents ↔ ∃ record ∈ table.records, record.key = key := by
  rw [contents, Contents.mem_ofEntries_iff, keys_entries, List.mem_map]

theorem Sound.lookup_of_mem (h : table.Sound) {record : Record} (hmem : record ∈ table.records) :
    table.contents.lookup record.key = some record.value :=
  (Contents.lookup_ofEntries_eq_some_iff h.nodup_entries).mpr (mem_entries_of_mem hmem)

/-- Looking for a key fails exactly if the contents lack it. -/
theorem Sound.locate?_eq_none_iff_notMem (h : table.Sound) (key : Bytes) :
    table.locate? key = none ↔ key ∉ table.contents := by
  rw [h.locate?_eq_none_iff, mem_contents_iff]
  push Not
  rfl

/-- Looking up answers from the contents. -/
theorem Sound.lookup_contents (h : table.Sound) (key : Bytes) :
    table.contents.lookup key = table.get? key := by
  cases hlocate : table.locate? key with
  | none =>
    rw [(get?_eq_none_iff_locate? h key).mpr hlocate, Finmap.lookup_eq_none]
    exact (h.locate?_eq_none_iff_notMem key).mp hlocate
  | some position =>
    obtain ⟨record, hat, rfl⟩ := h.exists_of_locate? hlocate
    have hmem := mem_records_of_recordAt? hat
    rw [h.lookup_of_mem hmem, h.get?_of_mem hmem]

theorem Sound.contains_eq (h : table.Sound) (key : Bytes) :
    table.contains key = decide (key ∈ table.contents) := by
  rw [contains, Bool.eq_iff_iff, decide_eq_true_iff, ← not_iff_not, ← h.locate?_eq_none_iff_notMem]
  simp

/-- What is found under a key that the contents have. -/
theorem Sound.exists_of_mem (h : table.Sound) {key : Bytes} (hmem : key ∈ table.contents) :
    ∃ position record, table.locate? key = some position ∧
      table.recordAt? position = some record ∧ record.key = key := by
  cases hlocate : table.locate? key with
  | none => exact absurd hmem ((h.locate?_eq_none_iff_notMem key).mp hlocate)
  | some position =>
    obtain ⟨record, hat, hkey⟩ := h.exists_of_locate? hlocate
    exact ⟨position, record, rfl, hat, hkey⟩

/-! ## The three ways in which buckets change -/

/-- Adding a record stores its value under its key. -/
theorem Sound.contents_link (h : table.Sound) {record : Record} (hrecord : record.Sound)
    (hkey : ∀ other ∈ table.records, other.key ≠ record.key) :
    (table.link record).contents = table.contents.insert record.key record.value := by
  have hperm := (perm_link h.size_pos record).map Record.entry
  exact Contents.ofEntries_eq_of_perm (h.link hrecord hkey).nodup_entries hperm

section At

variable {position : Position} {record : Record}

/-- Changing a record stores the value it gets under its key. -/
theorem Sound.contents_modifyAt (h : table.Sound) (hat : table.recordAt? position = some record)
    {change : Record → Record} (hkey : (change record).key = record.key) :
    (table.modifyAt position change).contents =
      table.contents.insert record.key (change record).value := by
  obtain ⟨front, back, hall, hmodify, -⟩ := exists_at hat
  have hnodup := h.nodup_entries
  rw [entries, hall, List.map_append, List.map_cons] at hnodup
  rw [contents, contents, entries, entries, hmodify, hall, List.map_append, List.map_cons,
    List.map_append, List.map_cons]
  exact Contents.ofEntries_replace hnodup hkey

/-- Removing a record removes its key. -/
theorem Sound.contents_unlink (h : table.Sound) (hat : table.recordAt? position = some record) :
    (table.unlink position).contents = table.contents.erase record.key := by
  obtain ⟨front, back, hall, -, hafter⟩ := exists_at hat
  have hnodup := h.nodup_entries
  rw [entries, hall, List.map_append, List.map_cons] at hnodup
  rw [contents, contents, entries, entries, hafter, hall, List.map_append, List.map_append,
    List.map_cons]
  exact Contents.ofEntries_erase hnodup

/-- The record at the cursor. -/
theorem currentValue_of_recordAt? {cursor : Option Position}
    (hcursor : cursor = some position) (hat : table.recordAt? position = some record) :
    ({ table with cursor } : MemoryTable).currentValue = .ok record.value := by
  have hcurrent : ({ table with cursor } : MemoryTable).current = some record.entry := by
    subst hcursor
    simp only [current, Option.bind_eq_bind, Option.bind_some]
    rw [show ({ table with cursor := some position } : MemoryTable).recordAt? position =
      some record from hat]
    rfl
  rw [currentValue, hcurrent]
  rfl

/-- A record that was changed is still at its position. -/
theorem recordAt?_modifyAt (hat : table.recordAt? position = some record)
    (change : Record → Record) :
    (table.modifyAt position change).recordAt? position = some (change record) := by
  have hlt := lt_size_of_recordAt? hat
  rw [recordAt?_eq] at hat ⊢
  rw [modifyAt, bucket_modify _ _ hlt, if_pos rfl, List.getElem?_modify, hat]
  simp

end At

/-! ## Operations -/

/-- The answer to a lookup. -/
def found : Option Bytes → Except Fault Bytes
  | some value => .ok value
  | none => .error .notFound

/-- Fetching answers from the contents, and leaves them. -/
theorem Sound.fetch_spec (h : table.Sound) (key : Bytes) :
    (table.fetch key).1 = found (table.contents.lookup key) ∧
      (table.fetch key).2.contents = table.contents := by
  refine ⟨?_, rfl⟩
  rw [h.lookup_contents]
  show ({ table with cursor := table.locate? key } : MemoryTable).currentValue = _
  cases hlocate : table.locate? key with
  | none =>
    rw [(get?_eq_none_iff_locate? h key).mpr hlocate]
    rfl
  | some position =>
    obtain ⟨record, hat, rfl⟩ := h.exists_of_locate? hlocate
    rw [h.get?_of_mem (mem_records_of_recordAt? hat), currentValue_of_recordAt? rfl hat, found]

/-- Writing over the start of a value answers with the whole value that results. -/
theorem Sound.patch_of_lookup (h : table.Sound) {key value : Bytes}
    (hlookup : table.contents.lookup key = some value) (bytes : Bytes) :
    (table.patch key bytes).1 = .ok (Record.patched value bytes) ∧
      (table.patch key bytes).2.contents =
        table.contents.insert key (Record.patched value bytes) := by
  obtain ⟨position, record, hlocate, hat, rfl⟩ :=
    h.exists_of_mem (Finmap.mem_of_lookup_eq_some hlookup)
  have hmem := mem_records_of_recordAt? hat
  have hrecord := h.laidOut record hmem
  rw [h.lookup_of_mem hmem, Option.some_inj] at hlookup
  have hvalue := Record.value_patch hrecord bytes
  rw [hlookup] at hvalue
  simp only [MemoryTable.patch, hlocate]
  refine ⟨?_, ?_⟩
  · rw [currentValue_of_recordAt? rfl (recordAt?_modifyAt hat _), hvalue]
  · rw [← hvalue]
    exact h.contents_modifyAt hat (Record.key_patch hrecord bytes)

theorem Sound.patch_of_notMem (h : table.Sound) {key : Bytes} (hmem : key ∉ table.contents)
    (bytes : Bytes) :
    (table.patch key bytes).1 = .error .notFound ∧
      (table.patch key bytes).2.contents = table.contents := by
  simp only [MemoryTable.patch, (h.locate?_eq_none_iff_notMem key).mpr hmem]
  exact ⟨trivial, rfl⟩

/-- A record of its own for a key that is absent. -/
theorem Sound.link_make_spec (h : table.Sound) {key : Bytes} (hmem : key ∉ table.contents)
    (content : Content) :
    (table.link (Record.make key content)).currentValue = .ok content.toBytes ∧
      (table.link (Record.make key content)).contents =
        table.contents.insert key content.toBytes := by
  have hrecord := Record.sound_make key content
  have hnew : ∀ other ∈ table.records, other.key ≠ (Record.make key content).key := by
    rw [Record.key_make]
    exact (h.locate?_eq_none_iff key).mp ((h.locate?_eq_none_iff_notMem key).mpr hmem)
  refine ⟨?_, ?_⟩
  · rw [currentValue, h.current_link hrecord hnew]
    exact congrArg Except.ok (Record.value_make key content)
  · rw [h.contents_link hrecord hnew, Record.key_make, Record.value_make]

/-- Adding a key that is present leaves every record where it is. -/
theorem Sound.sameRecords_insert (h : table.Sound) {key : Bytes} (hmem : key ∈ table.contents)
    (content : Content) : SameRecords (table.insert key content).2 table := by
  obtain ⟨position, record, hlocate, -, -⟩ := h.exists_of_mem hmem
  simp only [MemoryTable.insert, hlocate]
  exact ⟨rfl, rfl⟩

/-- Adding a key that is present fails, and changes nothing. -/
theorem Sound.insert_of_mem (h : table.Sound) {key : Bytes} (hmem : key ∈ table.contents)
    (content : Content) :
    (table.insert key content).1 = .error .alreadyExists ∧
      (table.insert key content).2.contents = table.contents := by
  obtain ⟨position, record, hlocate, -, -⟩ := h.exists_of_mem hmem
  simp only [MemoryTable.insert, hlocate]
  exact ⟨trivial, rfl⟩

theorem Sound.insert_of_notMem (h : table.Sound) {key : Bytes} (hmem : key ∉ table.contents)
    (content : Content) :
    (table.insert key content).1 = .ok content.toBytes ∧
      (table.insert key content).2.contents = table.contents.insert key content.toBytes := by
  simp only [MemoryTable.insert, (h.locate?_eq_none_iff_notMem key).mpr hmem]
  exact h.link_make_spec hmem content

/-- A key always gets the value that is stored. -/
theorem Sound.store_spec (h : table.Sound) (key : Bytes) (content : Content) :
    (table.store key content).1 = .ok content.toBytes ∧
      (table.store key content).2.contents = table.contents.insert key content.toBytes := by
  by_cases hmem : key ∈ table.contents
  · obtain ⟨position, record, hlocate, hat, rfl⟩ := h.exists_of_mem hmem
    simp only [MemoryTable.store, hlocate]
    refine ⟨?_, ?_⟩
    · rw [currentValue_of_recordAt? rfl (recordAt?_modifyAt hat _), Record.value_assign]
    · rw [← Record.value_assign record content]
      exact h.contents_modifyAt hat (record.key_assign content)
  · simp only [MemoryTable.store, (h.locate?_eq_none_iff_notMem key).mpr hmem]
    exact h.link_make_spec hmem content

theorem Sound.delete_of_mem (h : table.Sound) {key : Bytes} (hmem : key ∈ table.contents) :
    (table.delete key).1 = .ok () ∧
      (table.delete key).2.contents = table.contents.erase key := by
  obtain ⟨position, record, hlocate, hat, rfl⟩ := h.exists_of_mem hmem
  simp only [MemoryTable.delete, hlocate]
  exact ⟨trivial, h.contents_unlink hat⟩

/-- Removing a key that is absent fails, and changes nothing at all. -/
theorem Sound.delete_of_notMem (h : table.Sound) {key : Bytes} (hmem : key ∉ table.contents) :
    table.delete key = (.error .notFound, table) := by
  rw [MemoryTable.delete, (h.locate?_eq_none_iff_notMem key).mpr hmem]

/-! ## Logged changes -/

theorem Sound.apply (h : table.Sound) (change : Change) : (table.apply change).Sound := by
  cases change with
  | store key value => exact h.store key (.given value)
  | delete key => exact h.delete key

/-- A change that is made to a table is made to its contents. -/
theorem Sound.contents_apply (h : table.Sound) (change : Change) :
    (table.apply change).contents = table.contents.apply change := by
  cases change with
  | store key value => exact (h.store_spec key (.given value)).2
  | delete key =>
    by_cases hmem : key ∈ table.contents
    · exact (h.delete_of_mem hmem).2
    · show (table.delete key).2.contents = table.contents.erase key
      rw [h.delete_of_notMem hmem, Contents.erase_of_notMem hmem]

/-- So are any number of changes, one after the other. -/
theorem Sound.foldl_apply (h : table.Sound) (changes : List Change) :
    (changes.foldl MemoryTable.apply table).Sound ∧
      (changes.foldl MemoryTable.apply table).contents =
        changes.foldl Contents.apply table.contents := by
  induction changes generalizing table with
  | nil => exact ⟨h, rfl⟩
  | cons change changes ih =>
    have hrest := ih (h.apply change)
    rw [h.contents_apply change] at hrest
    exact hrest

end MemoryTable
end KeyTable
