import KeyTable.Proofs.MemoryTable.Contents

/-!
# Tables in step

What a table makes of its records does not depend on where its walk and its cursor are.  So
if the same is done to two tables with the same records, they keep the same records, and
answer the same; only a step of a walk depends on where the walk is.

* `InStep` — the records are the same, and walks and cursors as far as they are to be.
* `InStep.fetch`, `InStep.store`, `InStep.insert`, `InStep.delete` — these put both cursors in
  the same place, but for a delete that finds nothing.
* `InStep.next`, `InStep.first` — so do the steps of walks that are in the same place.
-/

namespace KeyTable
namespace MemoryTable

variable {table other : MemoryTable}

/-! ## The same records -/

theorem SameRecords.locate?_eq (h : SameRecords table other) (key : Bytes) :
    table.locate? key = other.locate? key := by
  simp only [locate?, chain, bucketCount, h.buckets]

theorem SameRecords.link (h : SameRecords table other) (record : Record) :
    SameRecords (table.link record) (other.link record) := by
  refine ⟨?_, ?_⟩
  · rw [buckets_link, buckets_link, bucketCount_eq, bucketCount_eq, h.buckets, h.count]
  · rw [count_link, count_link, h.count]

/-- A record that was added gets the same place in both. -/
theorem SameRecords.cursor_link (h : SameRecords table other) (record : Record) :
    (table.link record).cursor = (other.link record).cursor := by
  have hsize : table.bucketCount = other.bucketCount := by
    rw [bucketCount_eq, bucketCount_eq, h.buckets]
  by_cases hfull : table.bucketCount ≤ table.count + 1
  · have hother : other.bucketCount ≤ other.count + 1 := by
      rw [← hsize, ← h.count]
      exact hfull
    rw [link_of_full hfull, link_of_full hother]
    exact (h.link record).locate?_eq record.key
  · have hother : ¬ other.bucketCount ≤ other.count + 1 := by
      rw [← hsize, ← h.count]
      exact hfull
    rw [link_of_room (Nat.lt_of_not_le hfull), link_of_room (Nat.lt_of_not_le hother), hsize]

/-- Adding a record leaves the walk where it is, even if all buckets are split. -/
theorem walk_link (table : MemoryTable) (record : Record) :
    (table.link record).walk = table.walk := by
  by_cases hfull : table.bucketCount ≤ table.count + 1
  · rw [link_of_full hfull]
  · rw [link_of_room (Nat.lt_of_not_le hfull)]

/-! ## Walks and cursors in step -/

/-- Do two tables have the same records?  If `walks` says so, their walks are in the same
place, and if `cursors` says so, their cursors are. -/
structure InStep (walks cursors : Bool) (table other : MemoryTable) : Prop where
  /-- The records are the same. -/
  same : SameRecords table other
  /-- The walks are in the same place. -/
  walk : walks = true → table.walk = other.walk
  /-- The cursors are in the same place. -/
  cursor : cursors = true → table.cursor = other.cursor

namespace InStep

variable {walks cursors : Bool}

theorem refl (table : MemoryTable) : InStep walks cursors table table :=
  ⟨⟨rfl, rfl⟩, fun _ => rfl, fun _ => rfl⟩

/-- Cursors in the same place show the same. -/
theorem current_eq (h : InStep walks true table other) : table.current = other.current := by
  simp only [current, recordAt?, chain, h.cursor rfl, h.same.buckets]

theorem currentValue_eq (h : InStep walks true table other) :
    table.currentValue = other.currentValue := by
  rw [currentValue, currentValue, h.current_eq]

section Calls

variable (h : InStep walks cursors table other)
include h

theorem link (record : Record) : InStep walks true (table.link record) (other.link record) := by
  refine ⟨h.same.link record, ?_, fun _ => h.same.cursor_link record⟩
  intro hwalks
  rw [walk_link, walk_link, h.walk hwalks]

theorem fetch (key : Bytes) :
    (table.fetch key).1 = (other.fetch key).1 ∧
      InStep walks true (table.fetch key).2 (other.fetch key).2 := by
  have hfetched : InStep walks true (table.fetch key).2 (other.fetch key).2 :=
    ⟨⟨h.same.buckets, h.same.count⟩, h.walk, fun _ => h.same.locate?_eq key⟩
  exact ⟨hfetched.currentValue_eq, hfetched⟩

theorem store (key : Bytes) (content : Content) :
    (table.store key content).1 = (other.store key content).1 ∧
      InStep walks true (table.store key content).2 (other.store key content).2 := by
  have hstored : InStep walks true (table.store key content).2 (other.store key content).2 := by
    simp only [MemoryTable.store, ← h.same.locate?_eq key]
    cases table.locate? key with
    | none => exact h.link _
    | some position =>
      refine ⟨⟨?_, h.same.count⟩, h.walk, fun _ => rfl⟩
      simp only [modifyAt, h.same.buckets]
  exact ⟨hstored.currentValue_eq, hstored⟩

theorem insert (key : Bytes) (content : Content) :
    (table.insert key content).1 = (other.insert key content).1 ∧
      InStep walks true (table.insert key content).2 (other.insert key content).2 := by
  simp only [MemoryTable.insert, ← h.same.locate?_eq key]
  cases table.locate? key with
  | none =>
    have hlinked := h.link (Record.make key content)
    exact ⟨hlinked.currentValue_eq, hlinked⟩
  | some position => exact ⟨rfl, ⟨h.same.buckets, h.same.count⟩, h.walk, fun _ => rfl⟩

/-- A delete that finds nothing leaves the cursors where they are. -/
theorem delete (key : Bytes) :
    (table.delete key).1 = (other.delete key).1 ∧
      InStep walks (cursors || (table.delete key).1.isOk) (table.delete key).2
        (other.delete key).2 := by
  simp only [MemoryTable.delete, ← h.same.locate?_eq key]
  cases table.locate? key with
  | none =>
    refine ⟨rfl, h.same, h.walk, fun hcursors => h.cursor ?_⟩
    simpa [Except.isOk, Except.toBool] using hcursors
  | some position =>
    refine ⟨rfl, ⟨?_, ?_⟩, ?_, fun _ => rfl⟩
    · simp only [unlink, h.same.buckets]
    · simp only [unlink, h.same.count]
    · intro hwalks
      simp only [unlink, h.walk hwalks]

end Calls

/-- Walks in the same place go on to the same record. -/
theorem next_of_walk (h : InStep true cursors table other) :
    table.next.1 = other.next.1 ∧ InStep true true table.next.2 other.next.2 := by
  have hseek : seek table.buckets (table.bucketCount - table.walk.bucket) table.walk =
      seek other.buckets (other.bucketCount - other.walk.bucket) other.walk := by
    rw [bucketCount_eq, bucketCount_eq, h.same.buckets, h.walk rfl]
  have hnext : InStep true true table.next.2 other.next.2 :=
    ⟨⟨h.same.buckets, h.same.count⟩, fun _ => congrArg Prod.snd hseek,
      fun _ => congrArg Prod.fst hseek⟩
  exact ⟨hnext.current_eq, hnext⟩

theorem next (h : InStep walks cursors table other) :
    (walks = true → table.next.1 = other.next.1) ∧
      InStep walks walks table.next.2 other.next.2 := by
  cases walks with
  | true => exact ⟨fun _ => h.next_of_walk.1, h.next_of_walk.2⟩
  | false => exact ⟨nofun, ⟨h.same.buckets, h.same.count⟩, nofun, nofun⟩

/-- Walks that are started anew are in the same place. -/
theorem first (h : InStep walks cursors table other) :
    table.first.1 = other.first.1 ∧ InStep true true table.first.2 other.first.2 := by
  have hstart : InStep true false { table with walk := ⟨0, 0⟩ } { other with walk := ⟨0, 0⟩ } :=
    ⟨⟨h.same.buckets, h.same.count⟩, fun _ => rfl, nofun⟩
  exact hstart.next_of_walk

end InStep

end MemoryTable
end KeyTable
