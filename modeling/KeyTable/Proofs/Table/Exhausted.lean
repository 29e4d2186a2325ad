import KeyTable.Proofs.Table.Reachable

/-!
# Walks that have come to their end

A walk is at its end when it is behind the last bucket.  No operation but `first`
takes a walk back to an earlier bucket (`Onward`), and so the walk stays at its end
for as long as there are no new buckets.  Doubling the buckets does not touch the
walk, though: there may be records behind it again, all of them in the buckets that
the doubling has added.

* `exhausted_of_next` — a walk that finds nothing has left all buckets behind.
* `Placed.le_bucketOf_of_mem_ahead` — the records ahead of a walk are in no bucket
  that it has left behind.
* `Continued.onward` — however a table is worked on, its walk goes on.
* `Continued.next_of_exhausted` — what can still be found behind the end of a walk.
* `exhausted_walk_resumes` — and that this does happen.
-/

namespace KeyTable
namespace MemoryTable

/-! ## The end of a walk -/

variable {buckets : Array (List Record)}

/-- Looking for a record does not go back. -/
theorem le_bucket_seek (remaining : Nat) (walk : Position) :
    walk.bucket ≤ (seek buckets remaining walk).2.bucket := by
  induction remaining generalizing walk with
  | zero => exact Nat.le_refl _
  | succ remaining ih =>
    by_cases hlt : walk.depth < (bucket buckets walk.bucket).length
    · have hseek : seek buckets (remaining + 1) walk =
          (some walk, { walk with depth := walk.depth + 1 }) := if_pos hlt
      rw [hseek]
    · have hseek : seek buckets (remaining + 1) walk =
          seek buckets remaining ⟨walk.bucket + 1, 0⟩ := if_neg hlt
      rw [hseek]
      exact Nat.le_of_succ_le (ih ⟨walk.bucket + 1, 0⟩)

/-- Where there is no record ahead, all buckets are looked into. -/
theorem bucket_seek_of_ahead_eq_nil {walk : Position} (h : ahead buckets walk = [])
    (remaining : Nat) : (seek buckets remaining walk).2.bucket = walk.bucket + remaining := by
  induction remaining generalizing walk with
  | zero => rfl
  | succ remaining ih =>
    by_cases hlt : walk.depth < (bucket buckets walk.bucket).length
    · rw [ahead_of_lt hlt] at h
      cases h
    · have hseek : seek buckets (remaining + 1) walk =
          seek buckets remaining ⟨walk.bucket + 1, 0⟩ := if_neg hlt
      rw [ahead_of_le (Nat.le_of_not_lt hlt)] at h
      rw [hseek, ih h]
      exact Nat.add_right_comm walk.bucket 1 remaining

/-- A walk that finds nothing has left all buckets behind. -/
theorem exhausted_of_next {table : MemoryTable} (h : table.next.1 = none) :
    table.bucketCount ≤ table.next.2.walk.bucket := by
  have hnil : ahead table.buckets table.walk = [] := by
    rw [(next_spec table).1, Option.map_eq_none_iff, List.head?_eq_none_iff] at h
    exact h
  have hbucket := bucket_seek_of_ahead_eq_nil hnil (table.bucketCount - table.walk.bucket)
  show _ ≤ (seek table.buckets (table.bucketCount - table.walk.bucket) table.walk).2.bucket
  omega

/-- The records ahead of a walk are in no bucket that it has left behind. -/
theorem Placed.le_bucketOf_of_mem_ahead (h : Placed buckets) {walk : Position} {record : Record}
    (hmem : record ∈ ahead buckets walk) : walk.bucket ≤ bucketOf record.key buckets.size := by
  rcases List.mem_append.mp hmem with hbucket | hbehind
  · rw [h walk.bucket record (List.mem_of_mem_drop hbucket)]
  · obtain ⟨chain, hchain, hrecord⟩ := List.mem_flatten.mp hbehind
    obtain ⟨further, hfurther⟩ := List.mem_iff_getElem?.mp hchain
    rw [List.getElem?_drop, Array.getElem?_toList] at hfurther
    have hplace : record ∈ bucket buckets (walk.bucket + 1 + further) := by
      rw [bucket, hfurther, Option.getD_some]
      exact hrecord
    rw [h _ record hplace]
    omega

/-! ## Going on -/

/-- The later table has no fewer buckets, and its walk is in no earlier one. -/
structure Onward (table later : MemoryTable) : Prop where
  /-- Buckets are not given up. -/
  bucketCount_le : table.bucketCount ≤ later.bucketCount
  /-- The walk is not taken back. -/
  bucket_le : table.walk.bucket ≤ later.walk.bucket

namespace Onward

theorem refl (table : MemoryTable) : Onward table table := ⟨Nat.le_refl _, Nat.le_refl _⟩

theorem trans {table later last : MemoryTable} (h : Onward table later)
    (hlater : Onward later last) : Onward table last :=
  ⟨h.bucketCount_le.trans hlater.bucketCount_le, h.bucket_le.trans hlater.bucket_le⟩

end Onward

theorem onward_link (table : MemoryTable) (record : Record) : Onward table (table.link record) := by
  refine ⟨?_, ?_⟩
  · rw [bucketCount_link]
    split <;> omega
  · -- not even a doubling of the buckets touches the walk
    unfold link
    dsimp only
    split <;> exact Nat.le_refl _

theorem onward_modifyAt (table : MemoryTable) (position : Position) (change : Record → Record) :
    Onward table (table.modifyAt position change) :=
  ⟨Nat.le_of_eq Array.size_modify.symm, Nat.le_refl _⟩

/-- Removing a record may take the walk back within its bucket, but not to another. -/
theorem onward_unlink (table : MemoryTable) (position : Position) :
    Onward table (table.unlink position) := by
  refine ⟨Nat.le_of_eq Array.size_modify.symm, ?_⟩
  unfold unlink
  dsimp only
  split <;> exact Nat.le_refl _

theorem onward_fetch (table : MemoryTable) (key : Bytes) : Onward table (table.fetch key).2 :=
  ⟨Nat.le_refl _, Nat.le_refl _⟩

theorem onward_next (table : MemoryTable) : Onward table table.next.2 :=
  ⟨Nat.le_refl _, le_bucket_seek _ _⟩

theorem onward_patch (table : MemoryTable) (key bytes : Bytes) :
    Onward table (table.patch key bytes).2 := by
  unfold patch
  split
  · next position _ => exact ⟨(table.onward_modifyAt position _).bucketCount_le, Nat.le_refl _⟩
  · exact ⟨Nat.le_refl _, Nat.le_refl _⟩

theorem onward_insert (table : MemoryTable) (key : Bytes) (content : Content) :
    Onward table (table.insert key content).2 := by
  unfold insert
  split
  · exact ⟨Nat.le_refl _, Nat.le_refl _⟩
  · exact table.onward_link _

theorem onward_store (table : MemoryTable) (key : Bytes) (content : Content) :
    Onward table (table.store key content).2 := by
  unfold store
  cases table.locate? key with
  | none => exact table.onward_link _
  | some position => exact ⟨(table.onward_modifyAt position _).bucketCount_le, Nat.le_refl _⟩

theorem onward_delete (table : MemoryTable) (key : Bytes) : Onward table (table.delete key).2 := by
  unfold delete
  split
  · next position _ =>
    have hunlink := table.onward_unlink position
    exact ⟨hunlink.bucketCount_le, hunlink.bucket_le⟩
  · exact Onward.refl table

end MemoryTable

namespace Table

open MemoryTable (Onward)

/-! ## Working on with a table -/

/-- What a table can become as long as its walk is not started anew.  Counting the
records of a file table starts it anew as well. -/
inductive Continued (table : Table) : Table → Prop
  | refl : Continued table table
  | fetch {later : Table} (h : Continued table later) (key : Bytes) :
      Continued table (later.fetch key).2
  | store {later : Table} (h : Continued table later) (disk : Disk) (key : Bytes)
      (content : Content) : Continued table (later.store disk key content).table
  | insert {later : Table} (h : Continued table later) (disk : Disk) (key : Bytes)
      (content : Content) : Continued table (later.insert disk key content).table
  | delete {later : Table} (h : Continued table later) (disk : Disk) (key : Bytes) :
      Continued table (later.delete disk key).table
  | next {later : Table} (h : Continued table later) : Continued table later.next.2
  | patched {later : MemoryTable} (h : Continued table (.memory later)) (key bytes : Bytes) :
      Continued table (.memory (later.patch key bytes).2)
  | synced {later : FileTable} (h : Continued table (.file later)) (disk : Disk) :
      Continued table (.file (later.sync disk).1)
  | compacted {later : FileTable} (h : Continued table (.file later)) (disk : Disk) :
      Continued table (.file (later.compact disk).table)

variable {table later : Table}

theorem Continued.reachable (h : Continued table later) (htable : table.Reachable) :
    later.Reachable := by
  induction h with
  | refl => exact htable
  | fetch _ key ih => exact ih.fetch key
  | store _ disk key content ih => exact ih.store disk key content
  | insert _ disk key content ih => exact ih.insert disk key content
  | delete _ disk key ih => exact ih.delete disk key
  | next _ ih => exact ih.next
  | patched _ key bytes ih => exact ih.patched key bytes
  | synced _ disk ih => exact ih.synced disk
  | compacted _ disk ih => exact ih.compacted disk

theorem onward_store (table : Table) (disk : Disk) (key : Bytes) (content : Content) :
    Onward table.inMemory (table.store disk key content).table.inMemory := by
  cases table with
  | memory table => exact table.onward_store key content
  | file table =>
    show Onward table.memory (table.store disk key content).table.memory
    rw [FileTable.memory_store]
    split
    · exact Onward.refl _
    · exact table.memory.onward_store key content

theorem onward_insert (table : Table) (disk : Disk) (key : Bytes) (content : Content) :
    Onward table.inMemory (table.insert disk key content).table.inMemory := by
  cases table with
  | memory table => exact table.onward_insert key content
  | file table =>
    show Onward table.memory (table.insert disk key content).table.memory
    rw [FileTable.memory_insert]
    split
    · exact Onward.refl _
    · exact table.memory.onward_insert key content

theorem onward_delete (h : table.inMemory.Sound) (disk : Disk) (key : Bytes) :
    Onward table.inMemory (table.delete disk key).table.inMemory := by
  cases table with
  | memory table => exact table.onward_delete key
  | file table =>
    show Onward table.memory (table.delete disk key).table.memory
    rw [FileTable.memory_delete h]
    split
    · exact Onward.refl _
    · exact table.memory.onward_delete key

/-- However a table is worked on, its walk goes on. -/
theorem Continued.onward (h : Continued table later) (htable : table.Reachable) :
    Onward table.inMemory later.inMemory := by
  induction h with
  | refl => exact Onward.refl _
  | @fetch later _ key ih =>
    rw [(fetch_eq later key).2]
    exact ih.trans (later.inMemory.onward_fetch key)
  | @store later _ disk key content ih => exact ih.trans (later.onward_store disk key content)
  | @insert later _ disk key content ih => exact ih.trans (later.onward_insert disk key content)
  | delete h disk key ih => exact ih.trans (onward_delete (h.reachable htable).sound disk key)
  | @next later _ ih =>
    rw [(next_eq later).2]
    exact ih.trans later.inMemory.onward_next
  | @patched later _ key bytes ih => exact ih.trans (later.onward_patch key bytes)
  | @synced later _ disk ih =>
    show Onward _ (later.sync disk).1.memory
    rw [FileTable.memory_sync]
    exact ih
  | @compacted later _ disk ih =>
    show Onward _ (later.compact disk).table.memory
    rw [FileTable.memory_compact]
    exact ih

/-- Behind the end of a walk, `next` finds nothing while there are as many buckets as
there were.  Whatever it finds when there are more is in one of the new buckets. -/
theorem Continued.next_of_exhausted (htable : table.Reachable) (hend : table.next.1 = none)
    (h : Continued table.next.2 later) :
    (later.inMemory.bucketCount = table.inMemory.bucketCount → later.next.1 = none) ∧
      ∀ entry, later.next.1 = some entry →
        table.inMemory.bucketCount ≤
          MemoryTable.bucketOf entry.key later.inMemory.bucketCount := by
  have hsound := (h.reachable htable.next).sound
  have hwalk : table.inMemory.bucketCount ≤ later.inMemory.walk.bucket := by
    have hexhausted := MemoryTable.exhausted_of_next ((next_eq table).1 ▸ hend)
    have honward := (h.onward htable.next).bucket_le
    rw [(next_eq table).2] at honward
    exact hexhausted.trans honward
  have hfound : ∀ entry, later.next.1 = some entry →
      table.inMemory.bucketCount ≤
        MemoryTable.bucketOf entry.key later.inMemory.bucketCount := by
    intro entry hentry
    rw [(next_spec later).1] at hentry
    obtain ⟨record, hrecord, rfl⟩ := List.mem_map.mp (List.mem_of_mem_head? hentry)
    exact hwalk.trans (hsound.placed.le_bucketOf_of_mem_ahead hrecord)
  refine ⟨fun hcount => ?_, hfound⟩
  cases hnext : later.next.1 with
  | none => rfl
  | some entry =>
    have hle := hfound entry hnext
    have hlt := MemoryTable.bucketOf_lt entry.key hsound.size_pos
    rw [← MemoryTable.bucketCount_eq, hcount] at hlt
    rw [hcount] at hle
    exact absurd hle (Nat.not_le_of_lt hlt)

/-- A table with two buckets stays as it is for one record: the walk that has come to
its end does not find it. -/
theorem next_of_exhausted_with_room :
    let table := Table.memory (.withBuckets 2)
    let later := (table.next.2.insert .empty [0x61] (.given [0x78])).table
    later.inMemory.entries = [⟨[0x61], [0x78]⟩] ∧ later.next.1 = none := by
  intro table later
  have htable : table.Reachable :=
    .created (show create .memory { initialBuckets := 2 } = .ok table from rfl)
  have hend : table.next.1 = none := rfl
  have hcount : later.inMemory.bucketCount = table.inMemory.bucketCount := by
    decide +kernel +zetaReduce
  have hentries : later.inMemory.entries = [⟨[0x61], [0x78]⟩] := by decide +kernel +zetaReduce
  have hlater : Continued table.next.2 later := .insert .refl .empty [0x61] (.given [0x78])
  exact ⟨hentries, (hlater.next_of_exhausted htable hend).1 hcount⟩

/-- A second record doubles the buckets, and the walk finds the first one behind its end. -/
theorem exhausted_walk_resumes :
    let table := Table.memory (.withBuckets 2)
    let filled := (table.next.2.insert .empty [0x61] (.given [0x78])).table
    let doubled := (filled.insert .empty [0x62] (.given [0x79])).table
    table.Reachable ∧ table.next.1 = none ∧
      doubled.next.1 = some ⟨[0x61], [0x78]⟩ := by
  intro table filled doubled
  have htable : table.Reachable :=
    .created (show create .memory { initialBuckets := 2 } = .ok table from rfl)
  have hend : table.next.1 = none := rfl
  have hfound : doubled.next.1 = some ⟨[0x61], [0x78]⟩ := by decide +kernel +zetaReduce
  exact ⟨htable, hend, hfound⟩

end Table
end KeyTable
