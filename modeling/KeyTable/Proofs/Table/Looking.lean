import KeyTable.Dump.Print
import KeyTable.Proofs.Table.Reachable

/-!
# Only looking

To look a key up and to step through a table move its cursor and its walk, and nothing else.
Whole walks are made of such steps, and so is the writing of a dump.

* `Looked` — what a table becomes by lookups and steps.
* `Looked.sameRecords`, `Looked.made` — the records stay where they are.
* `Looked.visit`, `Looked.count`, `Looked.print` — whole walks and dumps only look.
-/

namespace KeyTable
namespace Table

/-- Can a table become the other by lookups and by steps of walks? -/
inductive Looked (table : Table) : Table → Prop
  | refl : Looked table table
  | fetch {later : Table} (h : Looked table later) (key : Bytes) : Looked table (later.fetch key).2
  | first {later : Table} (h : Looked table later) : Looked table later.first.2
  | next {later : Table} (h : Looked table later) : Looked table later.next.2

namespace Looked

variable {table later : Table}

/-- All records stay where they are. -/
theorem sameRecords (h : Looked table later) :
    MemoryTable.SameRecords later.inMemory table.inMemory := by
  induction h with
  | refl => exact ⟨rfl, rfl⟩
  | fetch _ key ih => exact (sameRecords_fetch _ key).trans ih
  | first _ ih => exact (first_spec _).2.2.trans ih
  | next _ ih => exact (next_spec _).2.2.trans ih

theorem made (h : Looked table later) (hmade : table.Made) : later.Made := by
  induction h with
  | refl => exact hmade
  | fetch _ key ih => exact ih.step (.fetch _ key)
  | first _ ih => exact ih.step (.first _)
  | next _ ih => exact ih.step (.next _)

/-! ## Whole walks -/

theorem visitFrom (stop : Entry → Bool) (steps : Nat) {start : Option Entry × Table}
    (h : Looked table start.2) : Looked table (visitFrom stop steps start).table := by
  induction steps generalizing start with
  | zero => obtain ⟨_ | entry, there⟩ := start <;> exact h
  | succ steps ih =>
    obtain ⟨_ | entry, there⟩ := start
    · exact h
    · rw [Table.visitFrom]
      split
      · exact h
      · exact ih h.next

theorem visit (h : Looked table later) (stop : Entry → Bool) :
    Looked table (later.visit stop).table :=
  h.first.visitFrom stop _

/-- A table in memory need not even walk to count its records. -/
theorem count (h : Looked table later) : Looked table later.count.2 := by
  cases later with
  | memory records => exact h
  | file records => exact h.visit _

/-! ## Dumps -/

theorem printFields (h : Looked table later) (keys : List Bytes) :
    Looked table (Dump.printFields later keys).table := by
  induction keys generalizing later with
  | nil => exact h
  | cons key keys ih =>
    have hfetched := h.fetch key
    rw [Dump.printFields]
    rcases hfetch : later.fetch key with ⟨_ | value, there⟩ <;> rw [hfetch] at hfetched
    · exact hfetched
    · exact ih hfetched

theorem printKeyed (h : Looked table later) : Looked table (Dump.printKeyed later).table := by
  have hvisited := h.visit Dump.isMalformed
  unfold Dump.printKeyed
  dsimp only
  split
  · exact hvisited
  · exact hvisited.printFields _

/-- Writing a dump only looks, whatever comes of it. -/
theorem print (h : Looked table later) : Looked table (Dump.print later).table := by
  have hkeyed := (h.fetch Dump.emptyKey).printKeyed
  unfold Dump.print
  dsimp only
  split <;> exact hkeyed

end Looked
end Table
end KeyTable
