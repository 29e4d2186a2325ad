import Mathlib
import KeyTable.Proofs.Dump.Canonical
import KeyTable.Proofs.Table.Looking

/-!
# A malformed key

A key that no dump can hold makes the writing of a table fail.  The keys are looked at in
the order of the walk, which is the outcome of all that was ever done to the table, and the
value of the empty key has been written by then; but no record with a header has.

* `not_writable_iff` — what is in the way of writing.
* `printKeyed_malformed`, `print_malformed` — such a key ends the writing in front of the
  first record with a header.
* `print_fails_on_malformed` — so writing fails exactly for such a key, and the text is then
  that of the empty key alone.
-/

namespace KeyTable
namespace Dump

/-! ## What is in the way of writing -/

theorem not_writable_iff {contents : Contents} :
    ¬ Writable contents ↔ ∃ key ∈ contents, key ≠ emptyKey ∧ isGoodKey key = false := by
  simp [Writable]

/-- A record whose key cannot be written is malformed. -/
theorem exists_isMalformed {table : MemoryTable} (hkeys : ¬ Writable table.contents) :
    ∃ entry, table.entries.find? isMalformed = some entry ∧ entry.key ∈ table.contents ∧
      isGoodKey entry.key = false := by
  obtain ⟨key, hkey, hne, hbad⟩ := not_writable_iff.mp hkeys
  obtain ⟨entry, hentry, rfl⟩ := List.mem_map.mp (Contents.mem_ofEntries_iff.mp hkey)
  have hmalformed : isMalformed entry = true := by simp [isMalformed, hne, hbad]
  cases hfind : table.entries.find? isMalformed with
  | none => exact absurd hmalformed (List.find?_eq_none.mp hfind entry hentry)
  | some found =>
    have hfound := List.find?_some hfind
    simp only [isMalformed, Bool.and_eq_true, Bool.not_eq_true'] at hfound
    exact ⟨found, rfl, Contents.mem_ofEntries_iff.mpr
      (List.mem_map_of_mem (List.mem_of_find?_eq_some hfind)), hfound.2⟩

/-- It stops the walk, and then nothing is written. -/
theorem printKeyed_malformed {table : Table} (hkeys : ¬ Writable table.inMemory.contents) :
    ∃ key ∈ table.inMemory.contents, isGoodKey key = false ∧
      (printKeyed table).answer = .error (.malformedKey key) ∧ (printKeyed table).bytes = [] := by
  obtain ⟨entry, hfind, hmem, hbad⟩ := exists_isMalformed hkeys
  obtain ⟨-, hstopped, -⟩ := table.visit_spec isMalformed
  rw [hfind] at hstopped
  refine ⟨entry.key, hmem, hbad, ?_⟩
  rw [printKeyed]
  simp only [hstopped, and_self]

/-! ## Writing a table -/

theorem answer_print (table : Table) :
    (print table).answer = (printKeyed (table.fetch emptyKey).2).answer := by
  rw [print]
  rcases table.fetch emptyKey with ⟨found | found, fetched⟩ <;> rfl

/-- The value of the empty key comes first, whatever becomes of the rest. -/
theorem bytes_print {table : Table} (h : table.inMemory.Sound) :
    (print table).bytes = (table.inMemory.contents.lookup emptyKey).elim [] blob ++
      (printKeyed (table.fetch emptyKey).2).bytes := by
  rw [print, Table.fetch_eq_found h]
  cases table.inMemory.contents.lookup emptyKey <;> rfl

/-- A table with a malformed key cannot be written. -/
theorem print_malformed {table : Table} (h : table.inMemory.Sound)
    (hkeys : ¬ Writable table.inMemory.contents) :
    ∃ key ∈ table.inMemory.contents, isGoodKey key = false ∧
      (print table).answer = .error (.malformedKey key) ∧
      (print table).bytes = (table.inMemory.contents.lookup emptyKey).elim [] blob := by
  have hcontents := (table.sameRecords_fetch emptyKey).contents_eq
  rw [← hcontents] at hkeys
  obtain ⟨key, hmem, hbad, hanswer, hnothing⟩ := printKeyed_malformed hkeys
  rw [hcontents] at hmem
  refine ⟨key, hmem, hbad, (answer_print table).trans hanswer, ?_⟩
  rw [bytes_print h, hnothing, List.append_nil]

/-- Writing a table fails exactly if a key besides the empty one is malformed, and then for such
a key.  What was written by then is the value of the empty key, if there is one, and nothing of
any other record.  The table holds the same as before in any case. -/
theorem print_fails_on_malformed {table : Table} (h : table.Made) :
    ((∃ key, (print table).answer = .error (.malformedKey key)) ↔
      ∃ key ∈ table.inMemory.contents, key ≠ emptyKey ∧ isGoodKey key = false) ∧
    ((print table).answer = .ok () ↔
      ¬ ∃ key ∈ table.inMemory.contents, key ≠ emptyKey ∧ isGoodKey key = false) ∧
    (∀ fault, (print table).answer = .error fault →
      (print table).bytes = (table.inMemory.contents.lookup emptyKey).elim [] blob ∧
      ∃ key ∈ table.inMemory.contents, key ≠ emptyKey ∧ isGoodKey key = false ∧
        fault = .malformedKey key) ∧
    (print table).table.inMemory.contents = table.inMemory.contents := by
  rw [← not_writable_iff, not_not]
  have hlooked : table.Looked (print table).table := .print .refl
  have hsame := hlooked.sameRecords.contents_eq
  by_cases hkeys : Writable table.inMemory.contents
  · have hanswer := (print_eq_dumpOf h.sound hkeys).1
    simp [hanswer, hkeys, hsame]
  · obtain ⟨key, hmem, hbad, hanswer, hbytes⟩ := print_malformed h.sound hkeys
    have hne : key ≠ emptyKey := by
      rintro rfl
      exact absurd hbad (by decide)
    refine ⟨?_, ?_, ?_, hsame⟩
    · simp [hanswer, hkeys]
    · simp [hanswer, hkeys]
    · intro fault hfault
      rw [hanswer, Except.error.injEq] at hfault
      exact ⟨hbytes, key, hmem, hne, hbad, hfault.symm⟩

/-- A table with a value of the empty key, a good key, and one without a zero byte at its
end. -/
def unwritable : Table :=
  let blank : Table := .file (.anonymous {})
  let headless := (blank.store .empty emptyKey (.given [0x68, 0x69, 0x00])).table
  let good := (headless.store .empty [0x61, 0x00] (.given [0x78, 0x00])).table
  (good.store .empty [0x62] (.given [])).table

theorem made_unwritable : unwritable.Made :=
  (((Table.Made.file {}).step (.store _ _ _ _)).step (.store _ _ _ _)).step (.store _ _ _ _)

/-- Of this table, the text of the empty key is written, and then the last key is refused. -/
theorem print_fails_on_malformed_headless :
    unwritable.Made ∧ (print unwritable).answer = .error (.malformedKey [0x62]) ∧
      (print unwritable).bytes = Bytes.ofText "hi\n" ∧
      unwritable.inMemory.contents.lookup [0x62] = some [] ∧
      (print unwritable).table.inMemory.contents = unwritable.inMemory.contents := by
  obtain ⟨-, -, hfails, hsame⟩ := print_fails_on_malformed made_unwritable
  have hanswer : (print unwritable).answer = .error (.malformedKey [0x62]) := by decide +kernel
  have hblob : unwritable.inMemory.contents.lookup emptyKey = some [0x68, 0x69, 0x00] := by
    decide +kernel
  refine ⟨made_unwritable, hanswer, ?_, by decide +kernel, hsame⟩
  rw [(hfails _ hanswer).1, hblob]
  decide +kernel

end Dump
end KeyTable
