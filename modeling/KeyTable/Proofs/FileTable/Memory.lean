import KeyTable.FileTable.Compaction
import KeyTable.FileTable.Opening
import KeyTable.Proofs.MemoryTable.Contents

/-!
# The records of a file table

What the operations of a file table do to the table in memory that it keeps.
Those that write to the log leave it alone (`memory_record`, `memory_sync`,
`memory_compact`).  Unless the table is read-only, a change does to it what the
operation of a table in memory does (`memory_store`, `memory_insert`,
`memory_delete`), and answers as this does (`answer_store`, `answer_insert`,
`answer_delete`), and the table is as writable afterwards.  The table in memory is sound from
the moment when it is recovered from a log (`sound_of_recover`).
-/

namespace KeyTable
namespace FileTable

variable {table : FileTable}

/-! ## What leaves the records alone -/

@[simp] theorem memory_record (table : FileTable) (disk : Disk) (change : Change) :
    (table.record disk change).1.memory = table.memory := by
  unfold record
  split <;> rfl

@[simp] theorem memory_sync (table : FileTable) (disk : Disk) :
    (table.sync disk).1.memory = table.memory := by
  unfold sync
  split <;> rfl

/-- Compaction leaves the records, whatever becomes of the log. -/
@[simp] theorem memory_compact (table : FileTable) (disk : Disk) :
    (table.compact disk).table.memory = table.memory := by
  unfold compact
  split
  · rfl
  · split
    · rfl
    · simp only
      split <;> exact memory_sync table disk

/-! ## Changes -/

/-- A logged change does to the records what its operation does. -/
theorem commit_memory {α : Type} (table : FileTable) (disk : Disk) (change : Change)
    (operation : MemoryTable → Except Fault α × MemoryTable) :
    (table.commit disk change operation).answer = (operation table.memory).1 ∧
      (table.commit disk change operation).table.memory = (operation table.memory).2 := by
  unfold commit
  simp only [memory_record, and_self]

theorem memory_store (table : FileTable) (disk : Disk) (key : Bytes) (content : Content) :
    (table.store disk key content).table.memory =
      if table.readOnly then table.memory else (table.memory.store key content).2 := by
  unfold store
  split
  · rfl
  · exact (commit_memory _ _ _ _).2

theorem memory_insert (table : FileTable) (disk : Disk) (key : Bytes) (content : Content) :
    (table.insert disk key content).table.memory =
      if table.readOnly then table.memory else (table.memory.insert key content).2 := by
  unfold insert
  split
  · rfl
  · split
    · rfl
    · exact (commit_memory _ _ _ _).2

/-- The table in memory is asked to remove a key only if it has it, which makes no
difference to the records. -/
theorem memory_delete (h : table.memory.Sound) (disk : Disk) (key : Bytes) :
    (table.delete disk key).table.memory =
      if table.readOnly then table.memory else (table.memory.delete key).2 := by
  unfold delete
  split
  · rfl
  · by_cases hmem : key ∈ table.memory.contents
    · rw [h.contains_eq, if_pos (decide_eq_true hmem)]
      exact (commit_memory _ _ _ _).2
    · rw [h.contains_eq, if_neg (by simpa using hmem), h.delete_of_notMem hmem]

/-! ## What leaves a table writable -/

@[simp] theorem readOnly_record (table : FileTable) (disk : Disk) (change : Change) :
    (table.record disk change).1.readOnly = table.readOnly := by
  unfold record
  split <;> rfl

@[simp] theorem readOnly_sync (table : FileTable) (disk : Disk) :
    (table.sync disk).1.readOnly = table.readOnly := by
  unfold sync
  split <;> rfl

@[simp] theorem readOnly_compact (table : FileTable) (disk : Disk) :
    (table.compact disk).table.readOnly = table.readOnly := by
  unfold compact
  split
  · rfl
  · split
    · rfl
    · simp only
      split <;> exact readOnly_sync table disk

theorem readOnly_commit {α : Type} (table : FileTable) (disk : Disk) (change : Change)
    (operation : MemoryTable → Except Fault α × MemoryTable) :
    (table.commit disk change operation).table.readOnly = table.readOnly := by
  unfold commit
  simp only [readOnly_record]

theorem readOnly_store (table : FileTable) (disk : Disk) (key : Bytes) (content : Content) :
    (table.store disk key content).table.readOnly = table.readOnly := by
  unfold store
  split
  · rfl
  · exact readOnly_commit ..

theorem readOnly_insert (table : FileTable) (disk : Disk) (key : Bytes) (content : Content) :
    (table.insert disk key content).table.readOnly = table.readOnly := by
  unfold insert
  split
  · rfl
  · split
    · rfl
    · exact readOnly_commit ..

theorem readOnly_delete (table : FileTable) (disk : Disk) (key : Bytes) :
    (table.delete disk key).table.readOnly = table.readOnly := by
  unfold delete
  split
  · rfl
  · split
    · exact readOnly_commit ..
    · rfl

/-! ## Answers -/

section Answers

variable (hwritable : table.readOnly = false)
include hwritable

/-- A table that can be changed answers as the table in memory does. -/
theorem answer_store (disk : Disk) (key : Bytes) (content : Content) :
    (table.store disk key content).answer = (table.memory.store key content).1 := by
  rw [store, if_neg (ne_true_of_eq_false hwritable)]
  exact (commit_memory _ _ _ _).1

theorem answer_insert (disk : Disk) (key : Bytes) (content : Content) :
    (table.insert disk key content).answer = (table.memory.insert key content).1 := by
  rw [insert, if_neg (ne_true_of_eq_false hwritable)]
  split
  · rfl
  · exact (commit_memory _ _ _ _).1

theorem answer_delete (h : table.memory.Sound) (disk : Disk) (key : Bytes) :
    (table.delete disk key).answer = (table.memory.delete key).1 := by
  rw [delete, if_neg (ne_true_of_eq_false hwritable)]
  by_cases hmem : key ∈ table.memory.contents
  · rw [h.contains_eq, if_pos (decide_eq_true hmem)]
    exact (commit_memory _ _ _ _).1
  · rw [h.contains_eq, if_neg (by simpa using hmem), h.delete_of_notMem hmem]

end Answers

/-! ## Soundness -/

/-- What a log is recovered to is sound. -/
theorem sound_of_recover {settings : Settings} {bytes : Bytes} {memory : MemoryTable}
    {recovery : Recovery} (h : recover settings bytes = .ok (memory, recovery)) : memory.Sound := by
  have hnew : (MemoryTable.ofSettings settings).Sound := MemoryTable.sound_withBuckets _
  unfold recover at h
  split at h
  · cases h
    exact hnew
  · cases hreplay : Log.replay bytes with
    | error fault => rw [hreplay] at h; cases h
    | ok replayed =>
      rw [hreplay] at h
      cases h
      exact (hnew.foldl_apply replayed.1).1

/-- A table that was opened has sound records. -/
theorem sound_of_openAt {disk : Disk} {path : Path} {flags : OpenFlags} {settings : Settings}
    (h : (openAt disk path flags settings).answer = .ok table) : table.memory.Sound := by
  unfold openAt at h
  split at h
  · cases h
  · split at h
    · cases h
    · unfold ofFile at h
      simp only at h
      split at h
      · cases h
      · next hrecover =>
        split at h <;>
        · cases h
          exact sound_of_recover hrecover

end FileTable
end KeyTable
