import KeyTable.Proofs.MemoryTable.Contents

/-!
# What a walk comes across

A walk is a position, and the records it has still to visit are those from the
position on: the rest of its bucket, and all the buckets behind.

* `seek_spec` — looking for a record finds the first of those ahead, however many
  empty buckets are in front of it, and leaves the others ahead.
* `next_spec`, `first_spec` — so `next` answers with the first record ahead, and
  `first` with the first of all.
-/

namespace KeyTable
namespace MemoryTable

/-- The records from a position on. -/
def ahead (buckets : Array (List Record)) (walk : Position) : List Record :=
  (bucket buckets walk.bucket).drop walk.depth ++ behind buckets walk.bucket

variable {buckets : Array (List Record)}

theorem behind_eq_nil {number : Nat} (h : buckets.size ≤ number + 1) :
    behind buckets number = [] := by
  have hdrop : buckets.toList.drop (number + 1) = [] := List.drop_eq_nil_of_le (by simpa using h)
  rw [behind, hdrop, List.flatten_nil]

/-- Behind a bucket there is the next one. -/
theorem behind_eq (number : Nat) : behind buckets number = ahead buckets ⟨number + 1, 0⟩ := by
  rw [ahead, List.drop_zero]
  by_cases hlt : number + 1 < buckets.size
  · have hlist : number + 1 < buckets.toList.length := by simpa using hlt
    rw [behind, List.drop_eq_getElem_cons hlist, List.flatten_cons, bucket_eq_getElem hlt,
      Array.getElem_toList, behind]
  · have hle := Nat.le_of_not_lt hlt
    have hnext : buckets.size ≤ number + 1 + 1 := Nat.le_succ_of_le hle
    rw [behind_eq_nil hle, bucket_eq_nil hle, behind_eq_nil hnext, List.append_nil]

theorem ahead_eq_nil {walk : Position} (h : buckets.size ≤ walk.bucket) :
    ahead buckets walk = [] := by
  rw [ahead, bucket_eq_nil h, behind_eq_nil (by omega), List.drop_nil, List.append_nil]

/-- From the beginning on, there are all records. -/
theorem ahead_start (buckets : Array (List Record)) :
    ahead buckets ⟨0, 0⟩ = buckets.toList.flatten := by
  rw [ahead, List.drop_zero]
  by_cases hlt : 0 < buckets.size
  · rw [flatten_eq hlt, inFront, List.take_zero, List.flatten_nil, List.nil_append]
  · have hle := Nat.le_of_not_lt hlt
    have hnil : buckets.toList = [] := List.eq_nil_of_length_eq_zero (by simpa using hle)
    rw [bucket_eq_nil hle, behind_eq_nil (by omega), hnil, List.flatten_nil, List.append_nil]

theorem ahead_of_lt {walk : Position} (h : walk.depth < (bucket buckets walk.bucket).length) :
    ahead buckets walk = (bucket buckets walk.bucket)[walk.depth] ::
      ahead buckets { walk with depth := walk.depth + 1 } := by
  rw [ahead, List.drop_eq_getElem_cons h, List.cons_append]
  rfl

theorem ahead_of_le {walk : Position} (h : (bucket buckets walk.bucket).length ≤ walk.depth) :
    ahead buckets walk = ahead buckets ⟨walk.bucket + 1, 0⟩ := by
  rw [ahead, List.drop_eq_nil_of_le h, List.nil_append, behind_eq]

/-- The records ahead are the last of all. -/
theorem ahead_suffix (buckets : Array (List Record)) (walk : Position) :
    ahead buckets walk <:+ buckets.toList.flatten := by
  by_cases hlt : walk.bucket < buckets.size
  · refine ⟨inFront buckets walk.bucket ++ (bucket buckets walk.bucket).take walk.depth, ?_⟩
    rw [ahead, flatten_eq hlt, List.append_assoc, ← List.append_assoc (List.take _ _),
      List.take_append_drop, List.append_assoc]
  · rw [ahead_eq_nil (Nat.le_of_not_lt hlt)]
    exact List.nil_suffix

theorem mem_records_of_mem_ahead {table : MemoryTable} {walk : Position} {record : Record}
    (h : record ∈ ahead table.buckets walk) : record ∈ table.records :=
  (ahead_suffix table.buckets walk).subset h

/-! ## Looking for the next record -/

/-- Looking for a record finds the first of those ahead. -/
theorem seek_spec (remaining : Nat) (walk : Position)
    (h : buckets.size ≤ walk.bucket + remaining) :
    ((seek buckets remaining walk).1.bind fun position =>
        (bucket buckets position.bucket)[position.depth]?) = (ahead buckets walk).head? ∧
      ahead buckets (seek buckets remaining walk).2 = (ahead buckets walk).tail := by
  induction remaining generalizing walk with
  | zero =>
    rw [seek, ahead_eq_nil h]
    exact ⟨rfl, rfl⟩
  | succ remaining ih =>
    by_cases hlt : walk.depth < (bucket buckets walk.bucket).length
    · have hseek : seek buckets (remaining + 1) walk =
          (some walk, { walk with depth := walk.depth + 1 }) := if_pos hlt
      rw [hseek, ahead_of_lt hlt, List.head?_cons, List.tail_cons]
      exact ⟨List.getElem?_eq_getElem hlt, rfl⟩
    · -- the bucket has been visited, and the next one is looked into
      have hseek : seek buckets (remaining + 1) walk =
          seek buckets remaining ⟨walk.bucket + 1, 0⟩ := if_neg hlt
      rw [hseek, ahead_of_le (Nat.le_of_not_lt hlt)]
      exact ih ⟨walk.bucket + 1, 0⟩ (by show _ ≤ walk.bucket + 1 + remaining; omega)

/-- The walk goes on to the first record ahead. -/
theorem next_spec (table : MemoryTable) :
    table.next.1 = (ahead table.buckets table.walk).head?.map Record.entry ∧
      ahead table.buckets table.next.2.walk = (ahead table.buckets table.walk).tail := by
  have hsize : table.buckets.size ≤
      table.walk.bucket + (table.bucketCount - table.walk.bucket) := by
    rw [bucketCount_eq]
    omega
  obtain ⟨hhead, htail⟩ := seek_spec _ table.walk hsize
  refine ⟨?_, htail⟩
  rw [← hhead]
  show Option.bind _ _ = _
  cases (seek table.buckets (table.bucketCount - table.walk.bucket) table.walk).1 with
  | none => rfl
  | some position =>
    show ((bucket table.buckets position.bucket)[position.depth]?.bind fun record =>
      some record.entry) = _
    rw [Option.bind_some]
    cases (bucket table.buckets position.bucket)[position.depth]? <;> rfl

/-- A walk starts at the first record of all. -/
theorem first_spec (table : MemoryTable) :
    table.first.1 = table.entries.head? ∧
      ahead table.buckets table.first.2.walk = table.records.tail := by
  have hnext := next_spec { table with walk := ⟨0, 0⟩ }
  rw [ahead_start] at hnext
  refine ⟨?_, hnext.2⟩
  rw [entries, List.head?_map]
  exact hnext.1

end MemoryTable
end KeyTable
