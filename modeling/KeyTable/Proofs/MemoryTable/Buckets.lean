import Mathlib.Tactic.Conv
import KeyTable.MemoryTable.Walk
import KeyTable.Proofs.MemoryTable.Layout

/-!
# Buckets as one list

The records of a table are the records of its buckets, one bucket behind the
other.  This file says what a change to one bucket does to that list.

* `flatten_eq`, `flatten_modify` — the list is cut by a bucket into what is in
  front of it, the bucket, and what is behind it, and only the middle changes.
* `perm_place`, `perm_foldl_place` — placing records adds them, in some order.
* `Placed` — every record is in the bucket of its key; it survives placing
  (`Placed.place`) and every change that keeps keys (`Placed.modify`).
* `exists_at` — a position splits the list at one record, and says at once what
  changing and removing that record leave.
-/

namespace KeyTable
namespace MemoryTable

/-! ## The records around a bucket -/

/-- The records of a bucket; there are none in a bucket that does not exist. -/
def bucket (buckets : Array (List Record)) (number : Nat) : List Record := buckets[number]?.getD []

/-- The records in front of a bucket. -/
def inFront (buckets : Array (List Record)) (number : Nat) : List Record :=
  (buckets.toList.take number).flatten

/-- The records behind a bucket. -/
def behind (buckets : Array (List Record)) (number : Nat) : List Record :=
  (buckets.toList.drop (number + 1)).flatten

variable {buckets : Array (List Record)} {number : Nat}

theorem bucket_eq_getElem (h : number < buckets.size) :
    bucket buckets number = buckets[number] := by
  rw [bucket, Array.getElem?_eq_getElem h, Option.getD_some]

theorem bucket_eq_nil (h : buckets.size ≤ number) : bucket buckets number = [] := by
  rw [bucket, Array.getElem?_eq_none h, Option.getD_none]

theorem lt_size_of_mem_bucket {record : Record} (h : record ∈ bucket buckets number) :
    number < buckets.size := by
  by_cases hlt : number < buckets.size
  · exact hlt
  · rw [bucket_eq_nil (Nat.le_of_not_lt hlt)] at h
    exact absurd h List.not_mem_nil

theorem flatten_eq (h : number < buckets.size) :
    buckets.toList.flatten = inFront buckets number ++ bucket buckets number ++
      behind buckets number := by
  have hlist : number < buckets.toList.length := by simpa using h
  conv_lhs => rw [← List.take_append_drop number buckets.toList, List.drop_eq_getElem_cons hlist]
  rw [List.flatten_append, List.flatten_cons, bucket_eq_getElem h, Array.getElem_toList, inFront,
    behind, List.append_assoc]

/-- A change to a bucket leaves what is in front of it and behind it. -/
theorem flatten_modify (h : number < buckets.size) (change : List Record → List Record) :
    (buckets.modify number change).toList.flatten =
      inFront buckets number ++ change (bucket buckets number) ++ behind buckets number := by
  have hlist : number < buckets.toList.length := by simpa using h
  rw [Array.toList_modify, List.modify_eq_take_cons_drop hlist, List.flatten_append,
    List.flatten_cons, bucket_eq_getElem h, Array.getElem_toList, inFront, behind,
    List.append_assoc]

theorem bucket_modify (change : List Record → List Record) (other : Nat)
    (h : number < buckets.size) :
    bucket (buckets.modify number change) other =
      if number = other then change (bucket buckets number) else bucket buckets other := by
  unfold bucket
  rw [Array.getElem?_modify]
  split
  · next heq => subst heq; simp [h]
  · rfl

/-- A record is in the table when it is in one of the buckets. -/
theorem mem_flatten_iff {record : Record} :
    record ∈ buckets.toList.flatten ↔ ∃ n, record ∈ bucket buckets n := by
  rw [List.mem_flatten]
  constructor
  · rintro ⟨chain, hchain, hmem⟩
    obtain ⟨n, hn, rfl⟩ := List.getElem_of_mem hchain
    have hsize : n < buckets.size := by simpa using hn
    exact ⟨n, by rw [bucket_eq_getElem hsize]; simpa using hmem⟩
  · rintro ⟨n, hmem⟩
    have hn := lt_size_of_mem_bucket hmem
    rw [bucket_eq_getElem hn] at hmem
    exact ⟨buckets[n], by simp, hmem⟩

/-! ## Placing records -/

theorem bucketOf_lt (key : Bytes) {bucketCount : Nat} (h : 0 < bucketCount) :
    bucketOf key bucketCount < bucketCount :=
  Nat.mod_lt _ h

@[simp] theorem size_place (buckets : Array (List Record)) (record : Record) :
    (place buckets record).size = buckets.size :=
  Array.size_modify

@[simp] theorem size_foldl_place (records : List Record) (buckets : Array (List Record)) :
    (records.foldl place buckets).size = buckets.size := by
  induction records generalizing buckets with
  | nil => rfl
  | cons record records ih => rw [List.foldl_cons, ih, size_place]

/-- To place a record is to add it. -/
theorem perm_place (record : Record) (h : 0 < buckets.size) :
    (place buckets record).toList.flatten.Perm (record :: buckets.toList.flatten) := by
  have hlt := bucketOf_lt record.key h
  rw [place, flatten_modify hlt, flatten_eq hlt, List.append_assoc, List.append_assoc]
  exact List.perm_middle

theorem perm_foldl_place (records : List Record) (buckets : Array (List Record))
    (h : 0 < buckets.size) :
    (records.foldl place buckets).toList.flatten.Perm (records ++ buckets.toList.flatten) := by
  induction records generalizing buckets with
  | nil => exact List.Perm.refl _
  | cons record records ih =>
    have hrest := ih (place buckets record) (by rw [size_place]; exact h)
    have hhead := (perm_place record h).append_left records
    exact (hrest.trans hhead).trans List.perm_middle

/-! ## Records in the bucket of their key -/

/-- Every record is in the bucket of its key. -/
def Placed (buckets : Array (List Record)) : Prop :=
  ∀ n, ∀ record ∈ bucket buckets n, bucketOf record.key buckets.size = n

theorem placed_replicate (size : Nat) : Placed (Array.replicate size []) := by
  intro n record h
  have hn := lt_size_of_mem_bucket h
  rw [bucket_eq_getElem hn, Array.getElem_replicate] at h
  exact absurd h List.not_mem_nil

/-- A change to a bucket whose records all have a key of the bucket. -/
theorem Placed.modify {change : List Record → List Record} (h : Placed buckets)
    (hnumber : number < buckets.size)
    (hchange : ∀ record ∈ change (bucket buckets number),
      bucketOf record.key buckets.size = number) :
    Placed (buckets.modify number change) := by
  intro n record hmem
  rw [bucket_modify change n hnumber] at hmem
  rw [Array.size_modify]
  split at hmem
  · next heq => subst heq; exact hchange record hmem
  · exact h n record hmem

theorem Placed.place (h : Placed buckets) (hsize : 0 < buckets.size) (record : Record) :
    Placed (place buckets record) := by
  refine h.modify (bucketOf_lt record.key hsize) ?_
  intro other hmem
  rcases List.mem_cons.mp hmem with rfl | hmem
  · rfl
  · exact h _ other hmem

theorem Placed.foldl_place (h : Placed buckets) (hsize : 0 < buckets.size)
    (records : List Record) : Placed (records.foldl MemoryTable.place buckets) := by
  induction records generalizing buckets with
  | nil => exact h
  | cons record records ih =>
    exact ih (h.place hsize record) (by rw [size_place]; exact hsize)

/-! ## Positions -/

theorem recordAt?_eq (table : MemoryTable) (position : Position) :
    table.recordAt? position = (bucket table.buckets position.bucket)[position.depth]? := rfl

theorem lt_size_of_recordAt? {table : MemoryTable} {position : Position} {record : Record}
    (h : table.recordAt? position = some record) : position.bucket < table.buckets.size :=
  lt_size_of_mem_bucket (List.mem_of_getElem? (recordAt?_eq table position ▸ h))

/-- A position with a record splits a list at that record. -/
theorem split_at_getElem? {records : List Record} {depth : Nat} {record : Record}
    (h : records[depth]? = some record) :
    records = records.take depth ++ record :: records.drop (depth + 1) ∧
      (∀ change, records.modify depth change =
        records.take depth ++ change record :: records.drop (depth + 1)) ∧
      records.eraseIdx depth = records.take depth ++ records.drop (depth + 1) := by
  obtain ⟨hlt, hget⟩ := List.getElem?_eq_some_iff.mp h
  refine ⟨?_, ?_, List.eraseIdx_eq_take_drop_succ records depth⟩
  · conv_lhs => rw [← List.take_append_drop depth records, List.drop_eq_getElem_cons hlt, hget]
  · intro change
    rw [List.modify_eq_take_cons_drop hlt, hget]

/-- A position with a record splits the records of a table at that record.  To
change the record, or to remove it, leaves all the others in their order. -/
theorem exists_at {table : MemoryTable} {position : Position} {record : Record}
    (h : table.recordAt? position = some record) :
    ∃ front back, table.records = front ++ record :: back ∧
      (∀ change, (table.modifyAt position change).records = front ++ change record :: back) ∧
      (table.unlink position).records = front ++ back := by
  have hlt := lt_size_of_recordAt? h
  rw [recordAt?_eq] at h
  obtain ⟨hall, hmodify, herase⟩ := split_at_getElem? h
  refine ⟨inFront table.buckets position.bucket ++
      (bucket table.buckets position.bucket).take position.depth,
    (bucket table.buckets position.bucket).drop (position.depth + 1) ++
      behind table.buckets position.bucket, ?_, ?_, ?_⟩
  · rw [records, flatten_eq hlt]
    conv_lhs => rw [hall]
    simp only [List.append_assoc, List.cons_append]
  · intro change
    rw [records, modifyAt, flatten_modify hlt, hmodify]
    simp only [List.append_assoc, List.cons_append]
  · rw [records, unlink, flatten_modify hlt, herase]
    simp only [List.append_assoc]

section At

variable {table : MemoryTable} {position : Position} {record other : Record}
  (h : table.recordAt? position = some record)
include h

/-- A change to a record leaves the others, and brings no more than the changed one. -/
theorem mem_records_modifyAt {change : Record → Record}
    (hmem : other ∈ (table.modifyAt position change).records) :
    other = change record ∨ other ∈ table.records := by
  obtain ⟨front, back, hall, hmodify, -⟩ := exists_at h
  rw [hmodify] at hmem
  rw [hall]
  rcases List.mem_append.mp hmem with hfront | hrest
  · exact .inr (List.mem_append_left _ hfront)
  · rcases List.mem_cons.mp hrest with hchanged | hback
    · exact .inl hchanged
    · exact .inr (List.mem_append_right _ (List.mem_cons_of_mem _ hback))

/-- A removal brings no record. -/
theorem mem_records_unlink (hmem : other ∈ (table.unlink position).records) :
    other ∈ table.records := by
  obtain ⟨front, back, hall, -, hunlink⟩ := exists_at h
  rw [hunlink] at hmem
  rw [hall]
  rcases List.mem_append.mp hmem with hfront | hback
  · exact List.mem_append_left _ hfront
  · exact List.mem_append_right _ (List.mem_cons_of_mem _ hback)

end At

end MemoryTable
end KeyTable
