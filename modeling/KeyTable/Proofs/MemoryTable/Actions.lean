import KeyTable.Proofs.MemoryTable.Refinement

/-!
# Whatever a caller does

Besides the calls of a table there are scans, which list its records and leave it as it
is.  An action is either of them.

* `take_scan` — a scan lists the records in the order of a walk from the beginning.
* `Sound.afterAll` — from a sound table on, any number of actions leave a sound table.
-/

namespace KeyTable
namespace MemoryTable

/-! ## What a scan lists -/

/-- The records that a scan has still to list. -/
def Scan.ahead (scan : Scan) : List Record := scan.chain ++ scan.buckets.flatten

/-- Opening buckets finds the first record in them. -/
theorem Scan.openBucket?_spec (remaining : Nat) (buckets : List (List Record)) :
    match buckets.flatten with
    | [] => openBucket? remaining buckets = none
    | record :: records =>
      ∃ rest, openBucket? remaining buckets = some (record.entry, rest) ∧ rest.ahead = records := by
  induction buckets with
  | nil => rfl
  | cons chain buckets ih =>
    cases chain with
    | nil => exact ih
    | cons record chain => exact ⟨⟨chain, buckets, remaining - 1⟩, rfl, rfl⟩

/-- A scan comes to the first record ahead, and has the others ahead of it then. -/
theorem Scan.next?_spec (scan : Scan) :
    match scan.ahead with
    | [] => scan.next? = none
    | record :: records =>
      ∃ rest, scan.next? = some (record.entry, rest) ∧ rest.ahead = records := by
  obtain ⟨chain, buckets, remaining⟩ := scan
  cases chain with
  | nil => exact openBucket?_spec remaining buckets
  | cons record chain => exact ⟨⟨chain, buckets, remaining - 1⟩, rfl, rfl⟩

/-- The next so many records of a scan are the first of those ahead. -/
theorem Scan.take_spec (count : Nat) (scan : Scan) :
    (scan.take count).1 = (scan.ahead.map Record.entry).take count := by
  induction count generalizing scan with
  | zero => rfl
  | succ count ih =>
    have hnext := scan.next?_spec
    rw [Scan.take]
    cases hahead : scan.ahead with
    | nil =>
      rw [hahead] at hnext
      rw [show scan.next? = none from hnext]
      rfl
    | cons record records =>
      rw [hahead] at hnext
      obtain ⟨rest, hsome, hrest⟩ := hnext
      rw [hsome, List.map_cons, List.take_succ_cons, ← hrest, ← ih rest]

/-- A scan lists the records of a table in the order of a walk. -/
theorem take_scan (table : MemoryTable) (count : Nat) :
    (table.scan.take count).1 = table.entries.take count :=
  Scan.take_spec count table.scan

/-- A scan of as many records as the table counts lists them all. -/
theorem Sound.take_scan_count {table : MemoryTable} (h : table.Sound) :
    (table.scan.take table.count).1 = table.entries := by
  rw [take_scan, ← h.length_entries, List.take_length]

/-! ## Actions -/

/-- What a caller does with a table. -/
inductive Action where
  /-- Make a call. -/
  | call (call : Call)
  /-- List so many records. -/
  | scan (count : Nat)

/-- What a caller is told. -/
inductive Response where
  /-- The reply to a call. -/
  | reply (reply : Reply)
  /-- The records that were listed. -/
  | listed (entries : List Entry)

/-- Takes an action. -/
def act (table : MemoryTable) : Action → Response × MemoryTable
  | .call call => (table.perform call).map .reply id
  | .scan count => (.listed (table.scan.take count).1, table)

/-- The table after an action. -/
def after (table : MemoryTable) (action : Action) : MemoryTable := (table.act action).2

/-- The table after any number of actions, one after the other. -/
def afterAll (table : MemoryTable) (actions : List Action) : MemoryTable :=
  actions.foldl after table

variable {table : MemoryTable}

theorem Sound.after (h : table.Sound) (action : Action) : (table.after action).Sound := by
  cases action with
  | call call => exact (perform_spec h call).1
  | scan count => exact h

/-- Any number of actions leave a sound table. -/
theorem Sound.afterAll (h : table.Sound) (actions : List Action) :
    (table.afterAll actions).Sound := by
  induction actions generalizing table with
  | nil => exact h
  | cons action actions ih => exact ih (h.after action)

end MemoryTable
end KeyTable
