import KeyTable.Proofs.MemoryTable.WalkGrowth

/-!
# The bucket array

The array of buckets always has a power of two of them, and more of them than there are records.
Every record is in the bucket that the last bits of the checksum of its key name, so no key is in
two buckets, and the count of the table adds up over the buckets.  The array is doubled by an
action that adds a key for which there is no room, and never changes its size otherwise.

* `BucketArray`, `Sound.bucketArray` — what holds of the array of every sound table.
* `doubles`, `Sound.bucketCount_after` — which actions double the array.
* `doublings`, `Sound.bucketCount_afterAll` — the size of the array after any number of actions.
* `bucket_array_kept` — all of this for every table.
-/

namespace KeyTable
namespace MemoryTable

variable {table : MemoryTable}

/-! ## The array -/

/-- What holds of the bucket array between two operations. -/
structure BucketArray (table : MemoryTable) : Prop where
  /-- The number of buckets is a power of two. -/
  powerOfTwo : ∃ k, table.bucketCount = 2 ^ k
  /-- There are at least two. -/
  two_le : 2 ≤ table.bucketCount
  /-- Every record is in the bucket that the last bits of the checksum of its key name. -/
  masked : ∀ n, ∀ record ∈ table.chain n,
    (crc32 record.key).toNat &&& (table.bucketCount - 1) = n
  /-- No key is in the table twice. -/
  nodup : (table.records.map Record.key).Nodup
  /-- The count adds up over the buckets. -/
  counted : table.count = (table.buckets.toList.map List.length).sum
  /-- There are more buckets than records. -/
  room : table.count < table.bucketCount

/-- Among a power of two of buckets, the last bits of the checksum name the bucket of a key. -/
theorem bucketOf_two_pow (key : Bytes) (k : Nat) :
    bucketOf key (2 ^ k) = (crc32 key).toNat &&& (2 ^ k - 1) :=
  (Nat.and_two_pow_sub_one_eq_mod _ k).symm

theorem Sound.bucketArray (h : table.Sound) : BucketArray table := by
  obtain ⟨k, hk⟩ := h.powerOfTwo
  refine ⟨⟨k + 1, hk⟩, ?_, ?_, h.nodup, ?_, h.room⟩
  · rw [hk, Nat.pow_succ]
    exact Nat.le_mul_of_pos_left 2 (Nat.two_pow_pos k)
  · intro n record hmem
    have hplaced : bucketOf record.key table.bucketCount = n := h.placed n record hmem
    rw [hk, bucketOf_two_pow] at hplaced
    rw [hk]
    exact hplaced
  · rw [h.counted, records, List.length_flatten]

/-! ## Its size after one action -/

/-- Does an action double the bucket array?  It does if it adds a key, and there would be as many
records as buckets then. -/
def doubles (table : MemoryTable) (action : Action) : Bool :=
  match action.adds? with
  | some key => !table.contains key && decide (table.bucketCount ≤ table.count + 1)
  | none => false

theorem doubles_of_adds {action : Action} {key : Bytes} (h : action.adds? = some key) :
    table.doubles action =
      (!table.contains key && decide (table.bucketCount ≤ table.count + 1)) := by
  rw [doubles, h]

theorem doubles_of_adds_none {action : Action} (h : action.adds? = none) :
    table.doubles action = false := by
  rw [doubles, h]

theorem bucketCount_modifyAt (table : MemoryTable) (position : Position)
    (change : Record → Record) : (table.modifyAt position change).bucketCount = table.bucketCount :=
  Array.size_modify

theorem bucketCount_unlink (table : MemoryTable) (position : Position) :
    (table.unlink position).bucketCount = table.bucketCount :=
  Array.size_modify

theorem bucketCount_patch (table : MemoryTable) (key bytes : Bytes) :
    (table.patch key bytes).2.bucketCount = table.bucketCount := by
  unfold MemoryTable.patch
  cases table.locate? key with
  | none => rfl
  | some position => exact bucketCount_modifyAt table position _

theorem bucketCount_edit (table : MemoryTable) (key : Bytes) (change : Bytes → Bytes) :
    (table.edit key change).2.bucketCount = table.bucketCount := by
  have hfetched : (table.fetch key).2.bucketCount = table.bucketCount := rfl
  unfold edit
  split
  · next value fetched hfetch =>
    rw [hfetch] at hfetched
    exact (bucketCount_patch fetched key _).trans hfetched
  · next fault fetched hfetch =>
    rw [hfetch] at hfetched
    exact hfetched

theorem bucketCount_delete (table : MemoryTable) (key : Bytes) :
    (table.delete key).2.bucketCount = table.bucketCount := by
  unfold MemoryTable.delete
  cases table.locate? key with
  | none => rfl
  | some position => exact bucketCount_unlink table position

/-- Adding a key that is there adds nothing. -/
theorem bucketCount_insert_of_some {key : Bytes} {position : Position}
    (hlocate : table.locate? key = some position) (content : Content) :
    (table.insert key content).2.bucketCount = table.bucketCount := by
  rw [MemoryTable.insert, hlocate]
  rfl

/-- Giving a key another value takes no new bucket. -/
theorem bucketCount_store_of_some {key : Bytes} {position : Position}
    (hlocate : table.locate? key = some position) (content : Content) :
    (table.store key content).2.bucketCount = table.bucketCount := by
  rw [MemoryTable.store, hlocate]
  exact bucketCount_modifyAt table position _

/-- An action that adds no key leaves the array as large as it is. -/
theorem bucketCount_after_of_present {action : Action}
    (h : ∀ key, action.adds? = some key → table.contains key = true) :
    (table.after action).bucketCount = table.bucketCount := by
  cases action with
  | scan count => rfl
  | call call =>
    cases call with
    | insert key content =>
      obtain ⟨position, hlocate⟩ := Option.isSome_iff_exists.mp (h key rfl)
      exact bucketCount_insert_of_some hlocate content
    | reserve key length =>
      obtain ⟨position, hlocate⟩ := Option.isSome_iff_exists.mp (h key rfl)
      exact bucketCount_insert_of_some hlocate (.zeroed length)
    | store key content =>
      obtain ⟨position, hlocate⟩ := Option.isSome_iff_exists.mp (h key rfl)
      exact bucketCount_store_of_some hlocate content
    | delete key => exact bucketCount_delete table key
    | edit key change => exact bucketCount_edit table key change
    | fetch | get | contains | first | next | count => rfl

/-- The array is doubled by an action that adds a key for which there is no room, and by no
other. -/
theorem Sound.bucketCount_after (h : table.Sound) (action : Action) :
    (table.after action).bucketCount =
      if table.doubles action then 2 * table.bucketCount else table.bucketCount := by
  cases hadds : action.adds? with
  | none =>
    rw [doubles_of_adds_none hadds]
    refine bucketCount_after_of_present ?_
    intro key hkey
    rw [hadds] at hkey
    cases hkey
  | some key =>
    rw [doubles_of_adds hadds]
    cases hcontains : table.contains key with
    | true =>
      refine bucketCount_after_of_present ?_
      intro other hother
      rw [hadds] at hother
      cases hother
      exact hcontains
    | false =>
      have habsent : key ∉ table.contents := by simpa [h.contains_eq] using hcontains
      obtain ⟨content, hlink⟩ := h.after_of_adds hadds habsent
      rw [hlink, bucketCount_link]
      simp

/-! ## Its size after any number of actions -/

/-- How often actions double the array, one after the other. -/
def doublings (table : MemoryTable) : List Action → Nat
  | [] => 0
  | action :: actions =>
    (if table.doubles action then 1 else 0) + (table.after action).doublings actions

/-- The array has been doubled so often. -/
theorem Sound.bucketCount_afterAll (h : table.Sound) (actions : List Action) :
    (table.afterAll actions).bucketCount = 2 ^ table.doublings actions * table.bucketCount := by
  induction actions generalizing table with
  | nil => exact (Nat.one_mul _).symm
  | cons action actions ih =>
    have hstep := h.bucketCount_after action
    have hrest : (table.afterAll (action :: actions)).bucketCount =
        2 ^ (table.after action).doublings actions * (table.after action).bucketCount :=
      ih (h.after action)
    rw [hrest, hstep, doublings]
    split
    · rw [Nat.pow_add, Nat.pow_one, Nat.mul_left_comm, Nat.mul_assoc]
    · rw [Nat.zero_add]

/-- What can be said of the bucket array of a table when these actions were taken. -/
structure ArrayKept (table : MemoryTable) (actions : List Action) : Prop where
  /-- The array is in order. -/
  array : BucketArray (table.afterAll actions)
  /-- It has only been doubled, and only where a key was added for which there was no room. -/
  size : (table.afterAll actions).bucketCount = 2 ^ table.doublings actions * table.bucketCount
  /-- One more action doubles it if it adds such a key, and leaves its size otherwise. -/
  step : ∀ action, ((table.afterAll actions).after action).bucketCount =
    if (table.afterAll actions).doubles action then 2 * (table.afterAll actions).bucketCount
    else (table.afterAll actions).bucketCount

/-- The bucket array is in order in every table, and whatever is done with its records. -/
theorem bucket_array_kept {table : Table} (h : table.Made) (actions : List Action) :
    ArrayKept table.inMemory actions := by
  have hlater := h.sound.afterAll actions
  exact ⟨hlater.bucketArray, h.sound.bucketCount_afterAll actions, hlater.bucketCount_after⟩

/-- Of three keys that are added to two buckets, the second doubles the array; to store a key
again and to remove one does not. -/
theorem bucket_array_kept_doubled :
    let table : Table := .memory (.ofSettings { initialBuckets := 1 })
    let actions : List Action := [.call (.insert [97] (.given [120])),
      .call (.store [98] (.given [121])), .call (.store [98] (.given [])),
      .call (.delete [97]), .call (.reserve [99] 3)]
    table.Made ∧ table.inMemory.doublings actions = 1 ∧
      (table.inMemory.afterAll actions).bucketCount = 4 := by
  intro table actions
  have hmade : table.Made := .memory _
  have hdoublings : table.inMemory.doublings actions = 1 := by decide +kernel
  have hsize := (bucket_array_kept hmade actions).size
  rw [hdoublings] at hsize
  exact ⟨hmade, hdoublings, hsize⟩

end MemoryTable
end KeyTable
