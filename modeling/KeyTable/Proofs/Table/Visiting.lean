import KeyTable.Proofs.MemoryTable.Actions
import KeyTable.Proofs.Table.Reachable

/-!
# All ways to visit a table

A scan, the steps of a walk and a whole walk all come across the same records in the same order,
each record once, whatever kind of table they go through.  A scan also knows at any time how many
records it has still to come to, and leaves nothing behind in the table.

* `Scan.call_spec` — one call of a scan takes the first of the records ahead, and the number of
  those that remain goes with them; behind the end it finds none.
* `Scan.later_spec` — so any number of calls take as many of the records.
* `walked_spec` — the steps of a walk from its beginning take the records in their order.
* `afterAll_without_scans` — a history comes to the same without its scans.
* `visits_alike` — all of this for every table.
-/

namespace KeyTable
namespace MemoryTable
namespace Scan

/-! ## The calls of a scan -/

/-- A scan after so many calls. -/
def later (scan : Scan) : Nat → Scan
  | 0 => scan
  | n + 1 => (scan.later n).call.2

/-- Is the number that a scan keeps the number of records ahead of it? -/
def Counted (scan : Scan) : Prop := scan.remaining = scan.ahead.length

variable {scan rest : Scan} {entry : Entry}

/-- Opening a bucket takes one record. -/
theorem remaining_of_openBucket? {remaining : Nat} {buckets : List (List Record)}
    (h : openBucket? remaining buckets = some (entry, rest)) : rest.remaining = remaining - 1 := by
  induction buckets with
  | nil => cases h
  | cons chain buckets ih =>
    cases chain with
    | nil => exact ih h
    | cons record chain =>
      cases h
      rfl

theorem remaining_of_next? (h : scan.next? = some (entry, rest)) :
    rest.remaining = scan.remaining - 1 := by
  obtain ⟨chain, buckets, remaining⟩ := scan
  cases chain with
  | nil => exact remaining_of_openBucket? h
  | cons record chain =>
    cases h
    rfl

/-- A call answers with the first record ahead, and takes it. -/
theorem call_spec (scan : Scan) :
    scan.call.1 = (scan.ahead.map Record.entry).head? ∧ scan.call.2.ahead = scan.ahead.tail ∧
      (scan.Counted → scan.call.2.Counted) := by
  have hnext := scan.next?_spec
  unfold Counted
  cases hahead : scan.ahead with
  | nil =>
    rw [hahead] at hnext
    have hcall : scan.call = (none, ⟨[], [], scan.remaining⟩) := by
      rw [call, show scan.next? = none from hnext]
    rw [hcall]
    exact ⟨rfl, rfl, id⟩
  | cons record records =>
    rw [hahead] at hnext
    obtain ⟨rest, hsome, hrest⟩ := hnext
    have hcall : scan.call = (some record.entry, rest) := by rw [call, hsome]
    rw [hcall]
    refine ⟨rfl, hrest, ?_⟩
    intro hcounted
    rw [remaining_of_next? hsome, hcounted, hrest]
    rfl

/-- So any number of calls take as many of the records ahead. -/
theorem later_spec (scan : Scan) (n : Nat) :
    (scan.later n).ahead = scan.ahead.drop n ∧ (scan.Counted → (scan.later n).Counted) := by
  induction n with
  | zero => exact ⟨rfl, id⟩
  | succ n ih =>
    obtain ⟨hahead, hcounted⟩ := ih
    obtain ⟨-, htail, hstill⟩ := (scan.later n).call_spec
    refine ⟨?_, hstill ∘ hcounted⟩
    rw [later, htail, hahead, List.tail_drop]

end Scan

/-- The scan of a sound table knows how many records are ahead of it. -/
theorem Sound.counted_scan {table : MemoryTable} (h : table.Sound) : table.scan.Counted :=
  h.counted

/-! ## Histories with scans -/

/-- Is an action a scan? -/
def Action.isScan : Action → Bool
  | .scan _ => true
  | .call _ => false

/-- A history comes to the same without its scans. -/
theorem afterAll_without_scans (table : MemoryTable) (actions : List Action) :
    table.afterAll actions = table.afterAll (actions.filter fun action => !action.isScan) := by
  induction actions generalizing table with
  | nil => rfl
  | cons action actions ih =>
    cases action with
    | scan count => exact ih table
    | call call => exact ih (table.after (.call call))

end MemoryTable

namespace Table

variable {table : Table}

/-! ## The steps of a walk -/

/-- What a walk from the beginning comes to after so many further steps, and the table then. -/
def walked (table : Table) : Nat → Option Entry × Table
  | 0 => table.first
  | n + 1 => (table.walked n).2.next

/-- A walk takes the records in their order, and has the others ahead. -/
theorem walked_spec (table : Table) (n : Nat) :
    (table.walked n).1 = table.inMemory.entries[n]? ∧
      (table.walked n).2.ahead = table.inMemory.entries.drop (n + 1) := by
  induction n with
  | zero =>
    obtain ⟨hanswer, hahead, -⟩ := table.first_spec
    exact ⟨hanswer.trans List.head?_eq_getElem?, hahead.trans List.drop_one.symm⟩
  | succ n ih =>
    obtain ⟨hanswer, hahead, -⟩ := (table.walked n).2.next_spec
    rw [ih.2] at hanswer hahead
    exact ⟨hanswer.trans List.head?_drop, hahead.trans List.tail_drop⟩

/-! ## All ways -/

/-- What can be said of the ways to visit the records of a table. -/
structure VisitsAlike (table : Table) : Prop where
  /-- No key is listed twice. -/
  nodup : (table.inMemory.entries.map Entry.key).Nodup
  /-- What is listed is what is found by a lookup. -/
  mem_iff : ∀ entry, entry ∈ table.inMemory.entries ↔
    table.inMemory.get? entry.key = some entry.value
  /-- Each call of a scan comes to one of the records listed, in their order, and every call
  behind them to none. -/
  scan : ∀ n, (table.inMemory.scan.later n).call.1 = table.inMemory.entries[n]?
  /-- After any number of calls, the scan says how many records are still to come. -/
  remaining : ∀ n, (table.inMemory.scan.later n).remaining = (table.inMemory.entries.drop n).length
  /-- Each step of a walk from the beginning comes to the same as a call of a scan, whatever kind
  of table with these records it goes through. -/
  walk : ∀ other : Table, other.inMemory = table.inMemory →
    ∀ n, (other.walked n).1 = table.inMemory.entries[n]?
  /-- A whole walk through such a table passes all records in their order. -/
  each : ∀ other : Table, other.inMemory = table.inMemory → other.each.1 = table.inMemory.entries
  /-- Whatever is done with the records, scans in between change nothing, neither what the walk
  comes to nor what is shown. -/
  traceless : ∀ actions, table.inMemory.afterAll actions =
    table.inMemory.afterAll (actions.filter fun action => !action.isScan)

/-- All ways to visit a table come across the same records. -/
theorem visits_alike (h : table.Made) : VisitsAlike table where
  nodup := h.sound.nodup_entries
  mem_iff := by
    intro entry
    rw [← h.sound.lookup_contents]
    exact (Contents.lookup_ofEntries_eq_some_iff h.sound.nodup_entries).symm
  scan := by
    intro n
    obtain ⟨hahead, -⟩ := table.inMemory.scan.later_spec n
    rw [(table.inMemory.scan.later n).call_spec.1, hahead, List.map_drop, List.head?_drop]
    rfl
  remaining := by
    intro n
    obtain ⟨hahead, hcounted⟩ := table.inMemory.scan.later_spec n
    rw [hcounted h.sound.counted_scan, hahead, MemoryTable.entries, ← List.map_drop,
      List.length_map]
    rfl
  walk := by
    intro other hsame n
    rw [(other.walked_spec n).1, hsame]
  each := by
    intro other hsame
    rw [other.each_spec.1, hsame]
  traceless := table.inMemory.afterAll_without_scans

/-- After a doubling and a removal, a walk and a scan take the same steps. -/
theorem visits_alike_after_doubling :
    let empty : Table := .memory (.ofSettings { initialBuckets := 2 })
    let table := [[97], [98], [99]].foldl
      (fun there key => (there.store .empty key (.given [120])).table) empty
    let last := (table.delete .empty [98]).table
    last.Made ∧ last.inMemory.bucketCount = 4 ∧ last.inMemory.count = 2 ∧
      ∀ n, (last.walked n).1 = (last.inMemory.scan.later n).call.1 := by
  intro empty table last
  have hempty : empty.Made := .memory _
  have hmade : last.Made :=
    (((hempty.step (.store ..)).step (.store ..)).step (.store ..)).step (.delete ..)
  have halike := visits_alike hmade
  refine ⟨hmade, by decide +kernel, by decide +kernel, ?_⟩
  intro n
  rw [halike.walk last rfl n, halike.scan n]

end Table
end KeyTable
