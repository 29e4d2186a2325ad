import KeyTable.Proofs.Dump.Printing
import KeyTable.Proofs.Dump.Reading

/-!
# A dump restores its table

Writing a table and reading what was written gives the table back: every key with
its value, byte for byte, whatever the values are.  It does not matter how the
bytes are cut into pieces on the way, nor what stands behind a terminator.

* `scan_printedLines` — the lines of a dump bring about the records of the table,
  and nothing else.
* `readSet_print` — reading a dump into a fresh table gives the table back.
-/

namespace KeyTable
namespace Dump

/-- A table that a dump can hold: every key can be written, and the value of the
empty key can be written without a header. -/
structure Dumpable (table : MemoryTable) : Prop where
  /-- Every key ends in a zero byte and holds no other. -/
  keys : ∀ entry ∈ table.entries, isGoodKey entry.key = true
  /-- The value of the empty key reads back. -/
  blob : ∀ entry ∈ table.entries, entry.key = emptyKey → blobReadsBack entry.value = true

variable {table : MemoryTable}

theorem Dumpable.isMalformed_eq_false (h : Dumpable table) :
    ∀ entry ∈ table.entries, isMalformed entry = false := by
  intro entry hentry
  rw [isMalformed, h.keys entry hentry]
  simp

/-- No line of a dump has a newline in it. -/
theorem newline_notMem_of_mem_printedLines {line : Bytes} (h : line ∈ printedLines table) :
    Ascii.newline ∉ line := by
  rcases List.mem_append.mp h with hblob | hkeyed
  · cases hlookup : table.contents.lookup emptyKey with
    | none =>
      rw [hlookup] at hblob
      exact absurd hblob List.not_mem_nil
    | some value =>
      rw [hlookup] at hblob
      exact Bytes.newline_notMem_of_mem_splitOn hblob
  · obtain ⟨entry, -, hline⟩ := List.mem_flatMap.mp hkeyed
    exact newline_notMem_of_mem_fieldLines hline

/-- The lines of a dump bring about the records of the table, and nothing else. -/
theorem scan_printedLines (hsound : table.Sound) (h : Dumpable table) :
    (scan none (printedLines table)).1 ++ completed (scan none (printedLines table)).2 =
      (printedEntries table).map Item.record := by
  have hgood : ∀ entry ∈ keyedEntries table.contents (headerKeys table.entries),
      isGoodKey entry.key = true ∧ entry.key ≠ emptyKey := by
    intro entry hentry
    obtain ⟨key, hkey, rfl⟩ := List.mem_map.mp hentry
    obtain ⟨hmem, hne⟩ := mem_headerKeys_iff.mp hkey
    obtain ⟨other, hother, rfl⟩ := List.mem_map.mp hmem
    exact ⟨h.keys other hother, hne⟩
  rw [printedLines, printedEntries, List.map_append]
  cases hlookup : table.contents.lookup emptyKey with
  | none => exact scan_records hgood none
  | some value =>
    have hmem : ⟨emptyKey, value⟩ ∈ table.entries :=
      (Contents.lookup_ofEntries_eq_some_iff hsound.nodup_entries).mp hlookup
    obtain ⟨record, hscan, hentry⟩ := scan_blobLines (h.blob _ hmem rfl)
    have hrecords := scan_records hgood (some record)
    have hrecord : completed (some record) = [.record ⟨emptyKey, value⟩] := by
      rw [← hentry]
      rfl
    rw [Option.elim_some, scan_append, hscan]
    dsimp only
    rw [List.nil_append, hrecords, hrecord]
    rfl

/-- A fresh table that the records of a table are stored into holds what the table
holds. -/
theorem contents_foldl_stores_printedEntries (hsound : table.Sound) (wish : Nat) :
    ((Contents.stores (printedEntries table)).foldl MemoryTable.apply
      (.withBuckets wish)).contents = table.contents := by
  rw [((MemoryTable.sound_withBuckets wish).foldl_apply _).2, MemoryTable.contents_withBuckets,
    Contents.foldl_apply_stores (nodup_printedEntries hsound), ofEntries_printedEntries hsound]

/-- Reading a set comes to an end with so many records, and with a table in memory
that holds this. -/
def Restores (loaded : Loaded) (summary : Summary) (contents : Contents) : Prop :=
  loaded.answer = .ok summary ∧
    ∃ restored, loaded.table = .memory restored ∧ restored.Sound ∧ restored.contents = contents

/-- A dump restores its table.  If all keys can be written, and the value of the
empty key reads back, writing succeeds, and reading what was written into a fresh
table gives the table back, as many records as it has.  If a terminator follows,
it is noted, and the stream is left just behind it. -/
theorem readSet_print {table : Table} (h : table.Reachable) (hdump : Dumpable table.inMemory) :
    (print table).answer = .ok () ∧
      ∀ (wish : Nat) (disk : Disk) (stream : Stream), 0 < stream.capacity →
        (stream.remaining disk = (print table).bytes →
          Restores (readSet (.memory (.withBuckets wish)) disk stream)
            ⟨table.inMemory.contents.size, false⟩ table.inMemory.contents) ∧
        ∀ rest, stream.remaining disk = (print table).bytes ++ (terminatorLine ++ rest) →
          Restores (readSet (.memory (.withBuckets wish)) disk stream)
              ⟨table.inMemory.contents.size, true⟩ table.inMemory.contents ∧
            (readSet (.memory (.withBuckets wish)) disk stream).rest.remaining disk = rest := by
  have hsound := h.sound
  obtain ⟨hanswer, hbytes⟩ := print_spec hsound hdump.isMalformed_eq_false
  refine ⟨hanswer, ?_⟩
  intro wish disk stream hcapacity
  have hfresh := MemoryTable.sound_withBuckets wish
  have hlines := fun line => @newline_notMem_of_mem_printedLines table.inMemory line
  have hscan := scan_printedLines hsound hdump
  have hrestored := contents_foldl_stores_printedEntries hsound wish
  have hkept := (hfresh.foldl_apply (Contents.stores (printedEntries table.inMemory))).1
  rw [hbytes, ← length_printedEntries hsound]
  refine ⟨?_, ?_⟩
  · intro hremaining
    obtain ⟨hread, htable, -⟩ := readSet_of_end hfresh hcapacity hlines hscan hremaining
    exact ⟨hread, _, htable, hkept, hrestored⟩
  · intro rest hremaining
    obtain ⟨hread, htable, -, hrest⟩ :=
      readSet_of_terminator hfresh hcapacity hlines hscan hremaining
    exact ⟨⟨hread, _, htable, hkept, hrestored⟩, hrest⟩

/-- A table with a value that has no header, a text and a value in base64. -/
def mixed : Table :=
  let fresh : Table := .memory (.ofSettings {})
  let titled := (fresh.store .empty emptyKey (.given [0x68, 0x69, 0x00])).table
  let named := (titled.store .empty [0x61, 0x20, 0x62, 0x00] (.given [0x40, 0x0a, 0x00])).table
  (named.store .empty [0x40, 0x00] (.given [0xff])).table

theorem reachable_mixed : mixed.Reachable :=
  (((@Table.Reachable.created .memory {} _ rfl).store _ _ _).store _ _ _).store _ _ _

theorem dumpable_mixed : Dumpable mixed.inMemory := ⟨by decide +kernel, by decide +kernel⟩

/-- Its dump is read back byte by byte, up to the terminator behind it. -/
theorem readSet_print_mixed :
    mixed.Reachable ∧ Dumpable mixed.inMemory ∧
      Restores
        (readSet (.memory (.withBuckets 2)) .empty
          (.withCapacity 1 ((print mixed).bytes ++ (terminatorLine ++ [0x78]))))
        ⟨mixed.inMemory.contents.size, true⟩ mixed.inMemory.contents :=
  ⟨reachable_mixed, dumpable_mixed,
    (((readSet_print reachable_mixed dumpable_mixed).2 2 .empty _ Nat.one_pos).2 [0x78]
      (Stream.remaining_withCapacity _ _ _)).1⟩

end Dump
end KeyTable
