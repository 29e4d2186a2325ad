import Mathlib.Algebra.Group.Nat.Defs
import Mathlib.Data.List.Nodup
import KeyTable.Proofs.MemoryTable.Buckets

/-!
# Sound tables

What holds of every table in memory, whatever was done to it.  `Sound` puts it
together: every record is in the bucket of its key and reaches to the end of its
value, no two records have the same key, and the count is right and below the
number of buckets, which is a power of two.

* `sound_withBuckets` — a new table is sound.
* `Sound.link`, `Sound.modifyAt`, `Sound.unlink` — the three ways in which
  buckets change keep a table sound; `link` may split all of them.
* `Sound.locate?_eq_none_iff`, `Sound.exists_of_locate?` — looking into a single
  bucket finds a key exactly if some record of the table has it.
* `Sound.insert`, `Sound.store`, `Sound.patch`, `Sound.delete` — so every
  operation keeps a table sound.
-/

namespace KeyTable
namespace MemoryTable

/-- What holds of every table. -/
structure Sound (table : MemoryTable) : Prop where
  /-- The number of buckets is a power of two, and at least two. -/
  powerOfTwo : ∃ k, table.bucketCount = 2 ^ (k + 1)
  /-- Every record is in the bucket of its key. -/
  placed : Placed table.buckets
  /-- The buffer of every record reaches to the end of its value. -/
  laidOut : ∀ record ∈ table.records, record.Sound
  /-- No two records have the same key. -/
  nodup : (table.records.map Record.key).Nodup
  /-- The count is the number of records. -/
  counted : table.count = table.records.length
  /-- There are more buckets than records. -/
  room : table.count < table.bucketCount

theorem bucketCount_eq (table : MemoryTable) : table.bucketCount = table.buckets.size := rfl

/-- A new table has no records. -/
theorem records_withBuckets (wish : Nat) : (withBuckets wish).records = [] := by
  simp [withBuckets, records]

/-- A new table is sound. -/
theorem sound_withBuckets (wish : Nat) : (withBuckets wish).Sound := by
  have hrecords := records_withBuckets wish
  have hsize : (withBuckets wish).bucketCount = bucketsFor wish := Array.size_replicate
  refine ⟨⟨_, hsize⟩, placed_replicate _, ?_, ?_, ?_, ?_⟩
  · intro record hmem
    rw [hrecords] at hmem
    exact absurd hmem List.not_mem_nil
  · rw [hrecords]
    exact List.nodup_nil
  · rw [hrecords]
    rfl
  · rw [hsize]
    exact Nat.two_pow_pos _

variable {table : MemoryTable}

theorem Sound.size_pos (h : table.Sound) : 0 < table.buckets.size := by
  obtain ⟨k, hk⟩ := h.powerOfTwo
  rw [← bucketCount_eq, hk]
  exact Nat.two_pow_pos _

/-- The records of two tables are the same, and in the same places; only walk and
cursor may differ. -/
structure SameRecords (table other : MemoryTable) : Prop where
  /-- The buckets are the same. -/
  buckets : table.buckets = other.buckets
  /-- The counts are the same. -/
  count : table.count = other.count

theorem SameRecords.trans {other third : MemoryTable} (h : SameRecords table other)
    (hother : SameRecords other third) : SameRecords table third :=
  ⟨h.buckets.trans hother.buckets, h.count.trans hother.count⟩

theorem SameRecords.records_eq {other : MemoryTable} (h : SameRecords table other) :
    table.records = other.records := by
  rw [records, records, h.buckets]

/-- Walk and cursor make no difference. -/
theorem Sound.congr {other : MemoryTable} (h : table.Sound) (hsame : SameRecords other table) :
    other.Sound := by
  obtain ⟨buckets, count, walk, cursor⟩ := other
  obtain ⟨rfl, rfl⟩ := hsame
  exact ⟨h.powerOfTwo, h.placed, h.laidOut, h.nodup, h.counted, h.room⟩

theorem sameRecords_fetch (table : MemoryTable) (key : Bytes) :
    SameRecords (table.fetch key).2 table :=
  ⟨rfl, rfl⟩

theorem sameRecords_next (table : MemoryTable) : SameRecords table.next.2 table := ⟨rfl, rfl⟩

theorem sameRecords_first (table : MemoryTable) : SameRecords table.first.2 table := ⟨rfl, rfl⟩

/-- Two records with the same key are the same. -/
theorem Sound.eq_of_key_eq (h : table.Sound) {record other : Record}
    (hrecord : record ∈ table.records) (hother : other ∈ table.records)
    (hkey : record.key = other.key) : record = other :=
  List.inj_on_of_nodup_map h.nodup hrecord hother hkey

/-! ## Finding a record -/

theorem mem_records_of_recordAt? {position : Position} {record : Record}
    (h : table.recordAt? position = some record) : record ∈ table.records := by
  rw [recordAt?_eq] at h
  exact mem_flatten_iff.mpr ⟨position.bucket, List.mem_of_getElem? h⟩

/-- What is found under a key has the key. -/
theorem Sound.exists_of_locate? (h : table.Sound) {key : Bytes} {position : Position}
    (hlocate : table.locate? key = some position) :
    ∃ record, table.recordAt? position = some record ∧ record.key = key := by
  obtain ⟨depth, hfind, rfl⟩ := Option.map_eq_some_iff.mp hlocate
  obtain ⟨hlt, hhas, -⟩ := List.findIdx?_eq_some_iff_getElem.mp hfind
  have hat : table.recordAt? ⟨bucketOf key table.bucketCount, depth⟩ =
      some (table.chain (bucketOf key table.bucketCount))[depth] := List.getElem?_eq_getElem hlt
  exact ⟨_, hat, ((h.laidOut _ (mem_records_of_recordAt? hat)).hasKey_iff key).mp hhas⟩

/-- Nothing is found under a key exactly if no record of the table has it, in
whatever bucket. -/
theorem Sound.locate?_eq_none_iff (h : table.Sound) (key : Bytes) :
    table.locate? key = none ↔ ∀ record ∈ table.records, record.key ≠ key := by
  rw [locate?, Option.map_eq_none_iff, List.findIdx?_eq_none_iff]
  constructor
  · intro hnone record hmem hkey
    -- by its key, the record is in the bucket that was looked into
    obtain ⟨n, hn⟩ := mem_flatten_iff.mp hmem
    have hbucket := h.placed n record hn
    rw [hkey] at hbucket
    subst hbucket
    have hmiss := hnone record hn
    rw [((h.laidOut record hmem).hasKey_iff key).mpr hkey] at hmiss
    exact absurd hmiss (by decide)
  · intro hall record hmem
    have hrecord : record ∈ table.records := mem_flatten_iff.mpr ⟨_, hmem⟩
    rw [Bool.eq_false_iff]
    intro hhas
    exact hall record hrecord (((h.laidOut record hrecord).hasKey_iff key).mp hhas)

/-- The record of a key is found under it. -/
theorem Sound.recordAt?_of_mem (h : table.Sound) {record : Record} (hmem : record ∈ table.records) :
    ∃ position, table.locate? record.key = some position ∧
      table.recordAt? position = some record := by
  cases hlocate : table.locate? record.key with
  | none => exact absurd rfl ((h.locate?_eq_none_iff record.key).mp hlocate record hmem)
  | some position =>
    obtain ⟨other, hat, hkey⟩ := h.exists_of_locate? hlocate
    refine ⟨position, rfl, ?_⟩
    rw [hat, h.eq_of_key_eq (mem_records_of_recordAt? hat) hmem hkey]

/-- Under a key there is the value of the record that has it. -/
theorem Sound.get?_of_mem (h : table.Sound) {record : Record} (hmem : record ∈ table.records) :
    table.get? record.key = some record.value := by
  obtain ⟨position, hlocate, hat⟩ := h.recordAt?_of_mem hmem
  simp [get?, hlocate, hat]

theorem get?_eq_none_iff_locate? (h : table.Sound) (key : Bytes) :
    table.get? key = none ↔ table.locate? key = none := by
  constructor
  · intro hnone
    cases hlocate : table.locate? key with
    | none => rfl
    | some position =>
      obtain ⟨record, hat, -⟩ := h.exists_of_locate? hlocate
      simp [get?, hlocate, hat] at hnone
  · intro hnone
    simp [get?, hnone]

/-! ## Adding a record -/

/-- Adding a record while there is room. -/
theorem link_of_room (h : table.count + 1 < table.bucketCount) (record : Record) :
    table.link record =
      { table with
        buckets := place table.buckets record
        count := table.count + 1
        cursor := some ⟨bucketOf record.key table.bucketCount, 0⟩ } := by
  refine if_neg ?_
  show ¬ (place table.buckets record).size ≤ table.count + 1
  rw [size_place, ← bucketCount_eq]
  omega

/-- Adding a record that fills the table: all records are placed anew. -/
theorem link_of_full (h : table.bucketCount ≤ table.count + 1) (record : Record) :
    table.link record =
      { table with
        buckets := (place table.buckets record).toList.flatten.foldl place
          (Array.replicate (2 * table.bucketCount) [])
        count := table.count + 1
        cursor := (table.link record).locate? record.key } := by
  have hfull : (place table.buckets record).size ≤ table.count + 1 := by
    rw [size_place, ← bucketCount_eq]
    exact h
  have hlink : table.link record = _ := if_pos hfull
  have hsize : (place table.buckets record).size = table.bucketCount := size_place _ _
  rw [hlink, ← hsize]
  rfl

/-- The buckets behind an added record. -/
theorem buckets_link (table : MemoryTable) (record : Record) :
    (table.link record).buckets =
      if table.bucketCount ≤ table.count + 1 then
        (place table.buckets record).toList.flatten.foldl place
          (Array.replicate (2 * table.bucketCount) [])
      else place table.buckets record := by
  split
  · next hfull => rw [link_of_full hfull]
  · next hroom => rw [link_of_room (Nat.lt_of_not_le hroom)]

theorem count_link (table : MemoryTable) (record : Record) :
    (table.link record).count = table.count + 1 := by
  by_cases hfull : table.bucketCount ≤ table.count + 1
  · rw [link_of_full hfull]
  · rw [link_of_room (Nat.lt_of_not_le hfull)]

theorem bucketCount_link (table : MemoryTable) (record : Record) :
    (table.link record).bucketCount =
      if table.bucketCount ≤ table.count + 1 then 2 * table.bucketCount else table.bucketCount := by
  rw [bucketCount_eq, buckets_link]
  split
  · rw [size_foldl_place, Array.size_replicate]
  · rw [size_place, bucketCount_eq]

/-- Adding a record to a table adds it to the list of records, in some place. -/
theorem perm_link (h : 0 < table.buckets.size) (record : Record) :
    (table.link record).records.Perm (record :: table.records) := by
  have hplace := perm_place record h
  rw [records, buckets_link]
  split
  · have hpos : 0 < (Array.replicate (2 * table.bucketCount) ([] : List Record)).size := by
      rw [Array.size_replicate, bucketCount_eq]
      omega
    have hsplit := perm_foldl_place (place table.buckets record).toList.flatten _ hpos
    rw [Array.toList_replicate, List.flatten_replicate_nil, List.append_nil] at hsplit
    exact hsplit.trans hplace
  · exact hplace

theorem placed_link (h : Placed table.buckets) (hsize : 0 < table.buckets.size)
    (record : Record) : Placed (table.link record).buckets := by
  rw [buckets_link]
  split
  · refine (placed_replicate _).foldl_place ?_ _
    rw [Array.size_replicate, bucketCount_eq]
    omega
  · exact h.place hsize record

/-- Adding a record with a key of its own keeps a table sound, whether it makes
the buckets split or not. -/
theorem Sound.link (h : table.Sound) {record : Record} (hrecord : record.Sound)
    (hkey : ∀ other ∈ table.records, other.key ≠ record.key) : (table.link record).Sound := by
  have hperm := perm_link h.size_pos record
  have hcount := h.counted
  have hroom := h.room
  refine ⟨?_, placed_link h.placed h.size_pos record, ?_, ?_, ?_, ?_⟩
  · obtain ⟨k, hk⟩ := h.powerOfTwo
    rw [bucketCount_link]
    split
    · exact ⟨k + 1, by rw [hk, Nat.pow_succ 2 (k + 1), Nat.mul_comm]⟩
    · exact ⟨k, hk⟩
  · intro other hmem
    rcases List.mem_cons.mp (hperm.mem_iff.mp hmem) with rfl | hmem
    · exact hrecord
    · exact h.laidOut other hmem
  · refine (hperm.map Record.key).nodup_iff.mpr ?_
    rw [List.map_cons, List.nodup_cons]
    refine ⟨?_, h.nodup⟩
    intro hmem
    obtain ⟨other, hother, hsame⟩ := List.mem_map.mp hmem
    exact hkey other hother hsame
  · rw [count_link, hperm.length_eq, List.length_cons, hcount]
  · rw [count_link, bucketCount_link]
    split <;> omega

/-- The record that was added is the one under the cursor. -/
theorem Sound.current_link (h : table.Sound) {record : Record} (hrecord : record.Sound)
    (hkey : ∀ other ∈ table.records, other.key ≠ record.key) :
    (table.link record).current = some record.entry := by
  have hsound := h.link hrecord hkey
  have hmem : record ∈ (table.link record).records :=
    (perm_link h.size_pos record).mem_iff.mpr List.mem_cons_self
  by_cases hfull : table.bucketCount ≤ table.count + 1
  · -- the buckets were split, and the record was looked up again
    obtain ⟨position, hlocate, hat⟩ := hsound.recordAt?_of_mem hmem
    have hcursor : (table.link record).cursor = some position := by
      rw [link_of_full hfull]
      exact hlocate
    simp [current, hcursor, hat]
  · -- the record is the newest of its bucket
    have hlt := bucketOf_lt record.key h.size_pos
    have hbucket := bucket_modify (record :: ·) (bucketOf record.key table.buckets.size) hlt
    rw [if_pos rfl] at hbucket
    have hroom := link_of_room (Nat.lt_of_not_le hfull) record
    have hat : (table.link record).recordAt? ⟨bucketOf record.key table.bucketCount, 0⟩ =
        some record := by
      rw [hroom, recordAt?_eq]
      show (bucket (place table.buckets record) _)[0]? = _
      rw [place, bucketCount_eq, hbucket]
      rfl
    have hcursor : (table.link record).cursor =
        some ⟨bucketOf record.key table.bucketCount, 0⟩ := by
      rw [hroom]
    simp [current, hcursor, hat]

/-! ## Changing and removing a record -/

section At

variable {position : Position} {record : Record}

/-- Changing a record keeps a table sound, as long as the record keeps its key. -/
theorem Sound.modifyAt (h : table.Sound) (hat : table.recordAt? position = some record)
    {change : Record → Record} (hrecord : (change record).Sound)
    (hkey : (change record).key = record.key) : (table.modifyAt position change).Sound := by
  obtain ⟨front, back, hall, hmodify, -⟩ := exists_at hat
  have hafter := hmodify change
  have hlt := lt_size_of_recordAt? hat
  obtain ⟨hsplit, hchange, -⟩ := split_at_getElem? (recordAt?_eq table position ▸ hat)
  have hsize : (table.modifyAt position change).bucketCount = table.bucketCount :=
    Array.size_modify
  have hkeys : (table.modifyAt position change).records.map Record.key =
      table.records.map Record.key := by
    rw [hafter, hall]
    simp [hkey]
  refine ⟨hsize ▸ h.powerOfTwo, ?_, ?_, hkeys ▸ h.nodup, ?_, hsize ▸ h.room⟩
  · refine h.placed.modify hlt ?_
    intro other (hmem : other ∈ (bucket table.buckets position.bucket).modify position.depth change)
    rw [hchange change] at hmem
    have hbucket := h.placed position.bucket
    rw [hsplit] at hbucket
    rcases List.mem_append.mp hmem with hfront | hrest
    · exact hbucket other (List.mem_append_left _ hfront)
    · rcases List.mem_cons.mp hrest with rfl | hback
      · rw [hkey]
        exact hbucket record (List.mem_append_right _ List.mem_cons_self)
      · exact hbucket other (List.mem_append_right _ (List.mem_cons_of_mem _ hback))
  · intro other hmem
    rcases mem_records_modifyAt hat hmem with rfl | hold
    · exact hrecord
    · exact h.laidOut other hold
  · show table.count = _
    rw [h.counted, ← List.length_map Record.key, ← hkeys, List.length_map]

/-- Removing a record keeps a table sound. -/
theorem Sound.unlink (h : table.Sound) (hat : table.recordAt? position = some record) :
    (table.unlink position).Sound := by
  obtain ⟨front, back, hall, -, hafter⟩ := exists_at hat
  have hlt := lt_size_of_recordAt? hat
  have hsub : (front ++ back).Sublist (front ++ record :: back) :=
    (List.Sublist.refl front).append (List.sublist_cons_self record back)
  have hsize : (table.unlink position).bucketCount = table.bucketCount := Array.size_modify
  have hcount : (table.unlink position).count = table.count - 1 := rfl
  have hcounted := h.counted
  have hroom := h.room
  rw [hall, List.length_append, List.length_cons] at hcounted
  refine ⟨hsize ▸ h.powerOfTwo, ?_, ?_, ?_, ?_, ?_⟩
  · refine h.placed.modify hlt ?_
    intro other hmem
    exact h.placed position.bucket other (List.mem_of_mem_eraseIdx hmem)
  · intro other hmem
    exact h.laidOut other (mem_records_unlink hat hmem)
  · rw [hafter]
    exact h.nodup.sublist (hall ▸ hsub.map Record.key)
  · rw [hcount, hafter, List.length_append]
    omega
  · rw [hcount, hsize]
    omega

end At

/-! ## Operations -/

/-- A key that is not found can be given a record. -/
theorem Sound.link_make (h : table.Sound) {key : Bytes} (content : Content)
    (hnone : table.locate? key = none) : (table.link (Record.make key content)).Sound := by
  refine h.link (Record.sound_make key content) ?_
  rw [Record.key_make]
  exact (h.locate?_eq_none_iff key).mp hnone

theorem Sound.fetch (h : table.Sound) (key : Bytes) : (table.fetch key).2.Sound :=
  h.congr (table.sameRecords_fetch key)

theorem Sound.next (h : table.Sound) : table.next.2.Sound := h.congr table.sameRecords_next

theorem Sound.first (h : table.Sound) : table.first.2.Sound := h.congr table.sameRecords_first

theorem Sound.insert (h : table.Sound) (key : Bytes) (content : Content) :
    (table.insert key content).2.Sound := by
  unfold MemoryTable.insert
  split
  · exact h.congr ⟨rfl, rfl⟩
  · next hnone => exact h.link_make content hnone

theorem Sound.reserve (h : table.Sound) (key : Bytes) (length : Nat) :
    (table.reserve key length).2.Sound :=
  h.insert key (.zeroed length)

theorem Sound.store (h : table.Sound) (key : Bytes) (content : Content) :
    (table.store key content).2.Sound := by
  unfold MemoryTable.store
  cases hlocate : table.locate? key with
  | none => exact h.link_make content hlocate
  | some position =>
    obtain ⟨record, hat, -⟩ := h.exists_of_locate? hlocate
    have hsound : (table.modifyAt position (·.assign content)).Sound :=
      h.modifyAt hat (record.sound_assign content) (record.key_assign content)
    exact hsound.congr ⟨rfl, rfl⟩

theorem Sound.patch (h : table.Sound) (key bytes : Bytes) : (table.patch key bytes).2.Sound := by
  unfold MemoryTable.patch
  split
  · next position hlocate =>
    obtain ⟨record, hat, -⟩ := h.exists_of_locate? hlocate
    have hrecord := h.laidOut record (mem_records_of_recordAt? hat)
    have hsound : (table.modifyAt position (·.patch bytes)).Sound :=
      h.modifyAt hat (Record.sound_patch hrecord bytes) (Record.key_patch hrecord bytes)
    exact hsound.congr ⟨rfl, rfl⟩
  · exact h.congr ⟨rfl, rfl⟩

theorem Sound.delete (h : table.Sound) (key : Bytes) : (table.delete key).2.Sound := by
  unfold MemoryTable.delete
  split
  · next position hlocate =>
    obtain ⟨record, hat, -⟩ := h.exists_of_locate? hlocate
    exact (h.unlink hat).congr ⟨rfl, rfl⟩
  · exact h

end MemoryTable
end KeyTable
