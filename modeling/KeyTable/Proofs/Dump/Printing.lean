import KeyTable.Dump.Print
import KeyTable.Proofs.Dump.Records
import KeyTable.Proofs.Table.Reachable

/-!
# What is written of a table

If every key of a table can be written, writing the table succeeds, and what is
written is the text of `printedLines`: the value of the empty key first, and then
the other records in the order of their keys.

* `mem_headerKeys_iff`, `nodup_headerKeys` — every other key is written once.
* `print_spec` — writing succeeds, and writes these lines.
* `ofEntries_printedEntries` — the records that are written make up what the table
  holds.
-/

namespace KeyTable
namespace Dump

/-! ## Keys with a header -/

theorem mem_headerKeys_iff {entries : List Entry} {key : Bytes} :
    key ∈ headerKeys entries ↔ key ∈ entries.map Entry.key ∧ key ≠ emptyKey := by
  rw [headerKeys, List.mem_mergeSort, List.mem_filter, decide_eq_true_iff]

theorem nodup_headerKeys {entries : List Entry} (h : (entries.map Entry.key).Nodup) :
    (headerKeys entries).Nodup :=
  (List.mergeSort_perm _ _).nodup_iff.mpr (h.filter _)

/-! ## Writing -/

/-- The value that a map has for a key. -/
def valueOf (contents : Contents) (key : Bytes) : Bytes := (contents.lookup key).getD []

/-- The records of these keys. -/
def keyedEntries (contents : Contents) (keys : List Bytes) : List Entry :=
  keys.map fun key => ⟨key, valueOf contents key⟩

/-- Writing the records of keys that are present succeeds. -/
theorem printFields_spec {table : Table} (hsound : table.inMemory.Sound) {keys : List Bytes}
    (hkeys : ∀ key ∈ keys, key ∈ table.inMemory.contents) :
    (printFields table keys).answer = .ok () ∧
      (printFields table keys).bytes =
        (keyedEntries table.inMemory.contents keys).flatMap fun entry =>
          field entry.key entry.value := by
  induction keys generalizing table with
  | nil => exact ⟨rfl, rfl⟩
  | cons key keys ih =>
    obtain ⟨value, hlookup⟩ := Finmap.mem_iff.mp (hkeys key List.mem_cons_self)
    have hsame := table.sameRecords_fetch key
    have hlater := @ih (table.fetch key).2 (hsound.congr hsame)
      (fun other hother => hsame.contents_eq ▸ hkeys other (List.mem_cons_of_mem _ hother))
    rw [hsame.contents_eq] at hlater
    rw [printFields, Table.fetch_eq_found hsound, hlookup]
    refine ⟨hlater.1, ?_⟩
    show field key value ++ (printFields (table.fetch key).2 keys).bytes = _
    rw [hlater.2, keyedEntries, keyedEntries, List.map_cons, List.flatMap_cons, valueOf, hlookup,
      Option.getD_some]

/-- The records of a table in the order in which they are written. -/
def printedEntries (table : MemoryTable) : List Entry :=
  ((table.contents.lookup emptyKey).map (Entry.mk emptyKey)).toList ++
    keyedEntries table.contents (headerKeys table.entries)

/-- The lines that are written of a table. -/
def printedLines (table : MemoryTable) : List Bytes :=
  (table.contents.lookup emptyKey).elim [] blobLines ++
    (keyedEntries table.contents (headerKeys table.entries)).flatMap fun entry =>
      fieldLines entry.key entry.value

/-- The text of the records that get a header. -/
theorem flatMap_field_eq_unlines (entries : List Entry) :
    (entries.flatMap fun entry => field entry.key entry.value) =
      Bytes.unlines (entries.flatMap fun entry => fieldLines entry.key entry.value) := by
  induction entries with
  | nil => rfl
  | cons entry entries ih =>
    rw [List.flatMap_cons, List.flatMap_cons, Bytes.unlines_append, ih, field_eq_unlines]

/-- Writing the records that get a header succeeds if no key is malformed. -/
theorem printKeyed_spec {table : Table} (hsound : table.inMemory.Sound)
    (hgood : ∀ entry ∈ table.inMemory.entries, isMalformed entry = false) :
    (printKeyed table).answer = .ok () ∧
      (printKeyed table).bytes =
        Bytes.unlines ((keyedEntries table.inMemory.contents
          (headerKeys table.inMemory.entries)).flatMap fun entry =>
            fieldLines entry.key entry.value) := by
  obtain ⟨hpassed, hstopped, hsame⟩ := table.visit_spec isMalformed
  have hnone : table.inMemory.entries.find? isMalformed = none := by
    rw [List.find?_eq_none]
    intro entry hentry
    rw [hgood entry hentry]
    decide
  have hall : table.inMemory.entries.takeWhile (!isMalformed ·) = table.inMemory.entries := by
    refine List.takeWhile_eq_self_iff.mpr ?_
    intro entry hentry
    rw [hgood entry hentry]
    rfl
  rw [hnone] at hstopped
  rw [hall] at hpassed
  have hprint := @printFields_spec (table.visit isMalformed).table (hsound.congr hsame)
    (headerKeys table.inMemory.entries) (by
      intro key hkey
      rw [hsame.contents_eq, MemoryTable.contents, Contents.mem_ofEntries_iff]
      exact (mem_headerKeys_iff.mp hkey).1)
  rw [hsame.contents_eq, flatMap_field_eq_unlines] at hprint
  rw [printKeyed]
  simp only [hstopped, hpassed]
  exact hprint

/-- Writing a table succeeds if no key is malformed, and writes its lines. -/
theorem print_spec {table : Table} (hsound : table.inMemory.Sound)
    (hgood : ∀ entry ∈ table.inMemory.entries, isMalformed entry = false) :
    (print table).answer = .ok () ∧
      (print table).bytes = Bytes.unlines (printedLines table.inMemory) := by
  have hsame := table.sameRecords_fetch emptyKey
  have hkeyed := printKeyed_spec (hsound.congr hsame) (hsame.entries_eq ▸ hgood)
  rw [hsame.contents_eq, hsame.entries_eq] at hkeyed
  rw [printedLines, Bytes.unlines_append, ← hkeyed.2, print, Table.fetch_eq_found hsound]
  cases table.inMemory.contents.lookup emptyKey with
  | none => exact ⟨hkeyed.1, rfl⟩
  | some value =>
    rw [Option.elim_some, ← blob_eq_unlines]
    exact ⟨hkeyed.1, rfl⟩

/-! ## What is written -/

theorem keys_keyedEntries (contents : Contents) (keys : List Bytes) :
    (keyedEntries contents keys).map Entry.key = keys := by
  rw [keyedEntries, List.map_map]
  exact List.map_id keys

/-- The records of keys that are present are those that the map has for them. -/
theorem mem_keyedEntries_iff {contents : Contents} {keys : List Bytes}
    (h : ∀ key ∈ keys, key ∈ contents) {key value : Bytes} :
    ⟨key, value⟩ ∈ keyedEntries contents keys ↔ contents.lookup key = some value ∧ key ∈ keys := by
  rw [keyedEntries, List.mem_map]
  constructor
  · rintro ⟨other, hother, heq⟩
    rw [Entry.mk.injEq] at heq
    obtain ⟨rfl, rfl⟩ := heq
    obtain ⟨found, hfound⟩ := Finmap.mem_iff.mp (h other hother)
    exact ⟨by rw [valueOf, hfound, Option.getD_some], hother⟩
  · rintro ⟨hlookup, hkey⟩
    exact ⟨key, hkey, by rw [valueOf, hlookup, Option.getD_some]⟩

/-- The records that are written are those of the table. -/
theorem mem_printedEntries_iff {table : MemoryTable} {key value : Bytes} :
    ⟨key, value⟩ ∈ printedEntries table ↔ table.contents.lookup key = some value := by
  have hpresent : ∀ other ∈ headerKeys table.entries, other ∈ table.contents := fun other hother =>
    Contents.mem_ofEntries_iff.mpr (mem_headerKeys_iff.mp hother).1
  have hkeyed : ⟨key, value⟩ ∈ keyedEntries table.contents (headerKeys table.entries) ↔
      table.contents.lookup key = some value ∧ key ≠ emptyKey := by
    rw [mem_keyedEntries_iff hpresent, mem_headerKeys_iff]
    constructor
    · rintro ⟨hlookup, -, hne⟩
      exact ⟨hlookup, hne⟩
    · rintro ⟨hlookup, hne⟩
      exact ⟨hlookup, Contents.mem_ofEntries_iff.mp (Finmap.mem_of_lookup_eq_some hlookup), hne⟩
  rw [printedEntries, List.mem_append, hkeyed]
  by_cases hempty : key = emptyKey
  · subst hempty
    cases table.contents.lookup emptyKey with
    | none => simp
    | some found => simp [eq_comm]
  · constructor
    · rintro (hfirst | hother)
      · obtain ⟨found, -, heq⟩ := Option.map_eq_some_iff.mp (Option.mem_toList.mp hfirst)
        exact absurd (congrArg Entry.key heq).symm hempty
      · exact hother.1
    · exact fun hlookup => Or.inr ⟨hlookup, hempty⟩

section Written

variable {table : MemoryTable} (h : table.Sound)
include h

/-- No key is written twice. -/
theorem nodup_printedEntries : ((printedEntries table).map Entry.key).Nodup := by
  have hkeyed := nodup_headerKeys h.nodup_entries
  rw [printedEntries, List.map_append, keys_keyedEntries]
  cases table.contents.lookup emptyKey with
  | none => exact hkeyed
  | some value =>
    show (emptyKey :: headerKeys table.entries).Nodup
    rw [List.nodup_cons]
    exact ⟨fun hmem => (mem_headerKeys_iff.mp hmem).2 rfl, hkeyed⟩

/-- They make up what the table holds. -/
theorem ofEntries_printedEntries : Contents.ofEntries (printedEntries table) = table.contents := by
  refine Finmap.ext_lookup ?_
  intro key
  refine Option.ext ?_
  intro value
  rw [Contents.lookup_ofEntries_eq_some_iff (nodup_printedEntries h)]
  exact mem_printedEntries_iff

/-- There are as many as the table holds. -/
theorem length_printedEntries : (printedEntries table).length = table.contents.size := by
  rw [← Contents.size_ofEntries (nodup_printedEntries h), ofEntries_printedEntries h]

end Written

end Dump
end KeyTable
