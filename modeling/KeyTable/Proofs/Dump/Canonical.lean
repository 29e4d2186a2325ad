import Mathlib
import KeyTable.DumpTool
import KeyTable.Proofs.Disk.Tree
import KeyTable.Proofs.Dump.RoundTrip
import KeyTable.Proofs.Dump.SetBySet

/-!
# A dump is a canonical form

What is written of a table depends on what the table holds, and on nothing else.  The keys
are collected by a walk, and the order of the walk is the outcome of the number of buckets
and of all that was ever done to the table; but then they are sorted.  Unless the value of
the empty key does not read back, the dump also tells what the table holds.

* `print_eq_dumpOf` — what is written is the text of the contents.
* `firstContents_dumpOf` — this text is a single set, and the set brings the contents back.
* `DumpTool.write_spec` — the dump tool writes the text of the first set of a file.
* `print_canonical` — so equal contents have equal dumps, equal dumps have equal contents, and
  what the tool writes is left as it is when the tool is run on it.
-/

namespace KeyTable
namespace Dump

open Grammar (linesOf linesOf_of_ne_nil)
open Contents (stores)

/-! ## Contents that a dump can hold -/

/-- Can all keys be written?  The empty key has no header to be written in. -/
def Writable (contents : Contents) : Prop :=
  ∀ key ∈ contents, key ≠ emptyKey → isGoodKey key = true

/-- Does the value of the empty key read back, if there is one? -/
def ReadsBack (contents : Contents) : Prop :=
  ∀ value, contents.lookup emptyKey = some value → blobReadsBack value = true

theorem Writable.isMalformed_eq_false {table : MemoryTable} (h : Writable table.contents) :
    ∀ entry ∈ table.entries, isMalformed entry = false := by
  intro entry hentry
  by_cases hempty : entry.key = emptyKey
  · simp [isMalformed, hempty]
  · have hmem : entry.key ∈ table.contents :=
      Contents.mem_ofEntries_iff.mpr (List.mem_map_of_mem hentry)
    simp [isMalformed, h entry.key hmem hempty]

/-- A dump can hold a table exactly if it can hold its contents. -/
theorem dumpable_iff {table : MemoryTable} (hsound : table.Sound) :
    Dumpable table ↔ Writable table.contents ∧ ReadsBack table.contents := by
  constructor
  · intro h
    refine ⟨?_, ?_⟩
    · intro key hkey _
      obtain ⟨entry, hentry, rfl⟩ := List.mem_map.mp (Contents.mem_ofEntries_iff.mp hkey)
      exact h.keys entry hentry
    · intro value hvalue
      have hentry := (Contents.lookup_ofEntries_eq_some_iff hsound.nodup_entries).mp hvalue
      exact h.blob _ hentry rfl
  · rintro ⟨hkeys, hblob⟩
    refine ⟨?_, ?_⟩
    · intro entry hentry
      by_cases hempty : entry.key = emptyKey
      · rw [hempty]
        decide
      · have hmem : entry.key ∈ table.contents :=
          Contents.mem_ofEntries_iff.mpr (List.mem_map_of_mem hentry)
        exact hkeys entry.key hmem hempty
    · intro entry hentry hempty
      have hlookup := (Contents.lookup_ofEntries_eq_some_iff hsound.nodup_entries).mpr hentry
      rw [hempty] at hlookup
      exact hblob entry.value hlookup

/-! ## The text of contents -/

/-- The keys that get a header, in ascending order. -/
def sortedKeys (contents : Contents) : List Bytes := (contents.keys.erase emptyKey).sort (· ≤ ·)

/-- The records that get a header, in ascending order of their keys. -/
def headed (contents : Contents) : List Entry := keyedEntries contents (sortedKeys contents)

/-- The text of contents: the value of the empty key, and the other records in ascending
order of their keys. -/
def dumpOf (contents : Contents) : Bytes :=
  (contents.lookup emptyKey).elim [] blob ++
    (headed contents).flatMap fun entry => field entry.key entry.value

theorem mem_sortedKeys_iff {contents : Contents} {key : Bytes} :
    key ∈ sortedKeys contents ↔ key ∈ contents ∧ key ≠ emptyKey := by
  rw [sortedKeys, Finset.mem_sort, Finset.mem_erase, Finmap.mem_keys, and_comm]

/-- Keys in ascending order do not even have equal neighbours if none is repeated. -/
theorem pairwise_lt {keys : List Bytes} (hsorted : keys.Pairwise (· ≤ ·)) (hnodup : keys.Nodup) :
    keys.Pairwise (· < ·) :=
  (hsorted.and hnodup).imp fun ⟨hle, hne⟩ => Std.lt_of_le_of_ne hle hne

theorem pairwise_sortedKeys (contents : Contents) : (sortedKeys contents).Pairwise (· < ·) :=
  pairwise_lt (Finset.pairwise_sort _ _) (Finset.sort_nodup _ _)

theorem pairwise_headerKeys {entries : List Entry} (h : (entries.map Entry.key).Nodup) :
    (headerKeys entries).Pairwise (· < ·) := by
  refine pairwise_lt ?_ (nodup_headerKeys h)
  have htrans : ∀ a b c : Bytes, decide (a ≤ b) = true → decide (b ≤ c) = true →
      decide (a ≤ c) = true := by
    intro a b c hab hbc
    exact decide_eq_true (Std.le_trans (of_decide_eq_true hab) (of_decide_eq_true hbc))
  have htotal : ∀ a b : Bytes, (decide (a ≤ b) || decide (b ≤ a)) = true := by
    intro a b
    simpa using Std.le_total (a := a) (b := b)
  exact (List.pairwise_mergeSort htrans htotal _).imp of_decide_eq_true

/-- Whatever the order of the walk, the keys are written in the same order. -/
theorem headerKeys_entries {table : MemoryTable} (h : table.Sound) :
    headerKeys table.entries = sortedKeys table.contents := by
  refine List.Pairwise.eq_of_mem_iff (pairwise_headerKeys h.nodup_entries)
    (pairwise_sortedKeys _) ?_
  intro key
  rw [mem_headerKeys_iff, mem_sortedKeys_iff, ← Contents.mem_ofEntries_iff]
  rfl

/-- The records that get a header are all but that of the empty key, in ascending order. -/
theorem headed_spec (contents : Contents) :
    (headed contents).Pairwise (·.key < ·.key) ∧
      ∀ key value, ⟨key, value⟩ ∈ headed contents ↔
        contents.lookup key = some value ∧ key ≠ emptyKey := by
  refine ⟨?_, ?_⟩
  · have hkeys := pairwise_sortedKeys contents
    rw [← keys_keyedEntries contents (sortedKeys contents), List.pairwise_map] at hkeys
    exact hkeys
  · intro key value
    rw [headed, mem_keyedEntries_iff fun other hother => (mem_sortedKeys_iff.mp hother).1,
      mem_sortedKeys_iff]
    constructor
    · rintro ⟨hlookup, -, hne⟩
      exact ⟨hlookup, hne⟩
    · rintro ⟨hlookup, hne⟩
      exact ⟨hlookup, Finmap.mem_of_lookup_eq_some hlookup, hne⟩

/-- The lines that are written of a table make up the text of its contents. -/
theorem unlines_printedLines {table : MemoryTable} (h : table.Sound) :
    Bytes.unlines (printedLines table) = dumpOf table.contents := by
  rw [printedLines, Bytes.unlines_append, ← flatMap_field_eq_unlines, headerKeys_entries h, dumpOf,
    headed]
  cases table.contents.lookup emptyKey with
  | none => rfl
  | some value => rw [Option.elim_some, Option.elim_some, blob_eq_unlines]

/-- What is written of a table is the text of its contents. -/
theorem print_eq_dumpOf {table : Table} (h : table.inMemory.Sound)
    (hkeys : Writable table.inMemory.contents) :
    (print table).answer = .ok () ∧ (print table).bytes = dumpOf table.inMemory.contents := by
  obtain ⟨hanswer, hbytes⟩ := print_spec h hkeys.isMalformed_eq_false
  exact ⟨hanswer, hbytes.trans (unlines_printedLines h)⟩

/-! ## Reading it back -/

/-- The lines of a text that is made up of lines. -/
theorem linesOf_unlines {lines : List Bytes} (h : ∀ line ∈ lines, Ascii.newline ∉ line) :
    linesOf (Bytes.unlines lines) = lines := by
  induction lines with
  | nil => rfl
  | cons line lines ih =>
    have hline := h line List.mem_cons_self
    rw [Bytes.unlines_cons, linesOf_of_ne_nil (by simp), Bytes.upToNewline_append_cons hline,
      Bytes.behindLine, Bytes.fromNewline_append_cons hline, List.drop_one, List.tail_cons,
      ih fun other hother => h other (List.mem_cons_of_mem _ hother)]

/-- A text that brings about nothing but records is a single set. -/
theorem firstSet_of_emitted {bytes : Bytes} {entries : List Entry}
    (h : emitted bytes = entries.map Item.record) : firstSet bytes = bytes := by
  obtain ⟨found, -, hfirst⟩ := exists_firstEntries bytes
  have hsplit := emitted_firstSet_append bytes
  have happend := firstSet_append_laterSets bytes
  cases hended : isEnded bytes with
  | false => rwa [laterSets_of_not_isEnded hended, List.append_nil] at happend
  | true =>
    -- a terminator would be among what is handed on
    have hmem : Item.endOfSet ∈ entries.map Item.record := by
      rw [← h, ← hsplit, hfirst, hended]
      simp
    exact absurd hmem (endOfSet_notMem_records entries)

/-- What the first set of a dump holds. -/
def firstContents (bytes : Bytes) : Contents :=
  Contents.ofChanges (stores (entriesOf (emitted (firstSet bytes))))

/-- A table that was empty holds what the first set holds when the set has been read into it. -/
theorem contents_read {turn : Turn} (htakes : turn.table.Takes turn.stream.origin?)
    (hempty : turn.table.inMemory.contents = ∅) :
    turn.read.table.inMemory.contents = firstContents turn.bytes := by
  refine Finmap.ext_lookup fun key => ?_
  rw [(Turn.read_spec htakes).1.found key, hempty, firstContents, Contents.ofChanges,
    Contents.lookup_foldl_stores]

/-- A turn that reads these bytes into a fresh table in memory. -/
def reading (bytes : Bytes) : Turn := ⟨.memory .empty, .empty, .ofBytes bytes⟩

theorem takes_reading (bytes : Bytes) :
    (reading bytes).table.Takes (reading bytes).stream.origin? := Table.takes_empty _

theorem contents_reading (bytes : Bytes) : (reading bytes).table.inMemory.contents = ∅ :=
  MemoryTable.contents_withBuckets _

theorem bytes_reading (bytes : Bytes) : (reading bytes).bytes = bytes := rfl

/-- What the first set holds is in one of its records. -/
theorem record_mem_of_lookup {bytes key value : Bytes}
    (h : (firstContents bytes).lookup key = some value) :
    .record ⟨key, value⟩ ∈ emitted (firstSet bytes) := by
  obtain ⟨⟨other, found⟩, hentry, heq⟩ := List.mem_map.mp (Contents.store_mem_of_lookup h)
  rw [Change.store.injEq] at heq
  obtain ⟨rfl, rfl⟩ := heq
  exact mem_entriesOf_iff.mp hentry

section ReadBack

variable {table : MemoryTable} (hsound : table.Sound) (hdump : Dumpable table)
include hsound hdump

/-- The text of what a table holds brings about the records that are written of it. -/
theorem emitted_dumpOf :
    emitted (dumpOf table.contents) = (printedEntries table).map Item.record := by
  rw [← unlines_printedLines hsound, emitted_eq,
    linesOf_unlines fun line => newline_notMem_of_mem_printedLines, decoded]
  exact scan_printedLines hsound hdump

/-- It is a single set, and the set brings back what the table holds. -/
theorem firstContents_dumpOf : firstContents (dumpOf table.contents) = table.contents := by
  have hemitted := emitted_dumpOf hsound hdump
  rw [firstContents, firstSet_of_emitted hemitted, hemitted, entriesOf_records,
    Contents.ofChanges, Contents.foldl_apply_stores (nodup_printedEntries hsound),
    ofEntries_printedEntries hsound]

end ReadBack

/-! ## Files -/

theorem Restored.eq_of_ofLoaded {handedOver : Bool} {loaded : Loaded} {table : Table}
    (h : (Restored.ofLoaded handedOver loaded).answer = .ok (some table)) :
    loaded.table = table := by
  unfold Restored.ofLoaded at h
  split at h
  · cases h
  · dsimp only at h
    split at h <;> cases h
    rfl

/-- If the first set of a file has a record, a table is restored from it. -/
theorem exists_restored {disk : Disk} {path : Path} {bytes : Bytes}
    (h : disk.read path = .ok bytes) (hsome : firstContents bytes ≠ ∅) :
    ∃ table : Table, (restoreFile none disk path).answer = .ok (some table) ∧
      table.inMemory.Sound ∧ table.inMemory.contents = firstContents bytes := by
  obtain ⟨number, hnumber, rfl⟩ := Disk.read_eq_ok_iff.mp h
  let turn : Turn := ⟨.memory .empty, disk, .ofFile number⟩
  have hbytes : turn.bytes = disk.contents number := rfl
  obtain ⟨table?, hanswer, hnone, hfound⟩ := turn.restore_none_spec
  rw [hbytes] at hnone hfound
  have hfile : restoreFile none disk path = restore none disk (.ofFile number) := by
    rw [restoreFile, hnumber]
  cases table? with
  | none =>
    rw [firstContents, hnone.mp rfl] at hsome
    exact absurd rfl hsome
  | some table =>
    have hread : turn.read.table = table := Restored.eq_of_ofLoaded hanswer
    have hleaves : turn.Leaves turn.read := (Turn.read_spec (Table.takes_empty _)).2
    have htakes := hleaves.takes
    refine ⟨table, by rw [hfile]; exact hanswer, hread ▸ htakes.reachable.sound, ?_⟩
    refine Finmap.ext_lookup fun key => ?_
    rw [hfound table rfl key, firstContents, Contents.ofChanges, Contents.lookup_foldl_stores,
      Finmap.lookup_empty, Option.or_none]

end Dump

/-- The dump tool writes the text of what the first set of a file holds, and ends well. -/
theorem DumpTool.write_spec {disk : Disk} {path : Path} {bytes : Bytes}
    (h : disk.read path = .ok bytes) (hsome : Dump.firstContents bytes ≠ ∅)
    (hkeys : Dump.Writable (Dump.firstContents bytes)) (file : String) :
    (write disk path file).answer = .ok () ∧
      (write disk path file).output = Dump.dumpOf (Dump.firstContents bytes) := by
  obtain ⟨table, hanswer, hsound, hcontents⟩ := Dump.exists_restored h hsome
  rw [← hcontents] at hkeys ⊢
  rw [write]
  simp only [hanswer]
  exact Dump.print_eq_dumpOf hsound hkeys

namespace Dump

/-- The text of what a file holds is a file that holds the same, so the tool leaves it as it
is. -/
theorem write_dumpOf {disk : Disk} {path : Path} {bytes : Bytes} (h : disk.read path = .ok bytes)
    (hsome : firstContents bytes ≠ ∅) (hkeys : Writable (firstContents bytes))
    (hblob : ReadsBack (firstContents bytes)) {again : Disk} {other : Path}
    (hagain : again.read other = .ok (dumpOf (firstContents bytes))) (file : String) :
    (DumpTool.write again other file).answer = .ok () ∧
      (DumpTool.write again other file).output = dumpOf (firstContents bytes) := by
  obtain ⟨table, -, hsound, hcontents⟩ := exists_restored h hsome
  have hsame : firstContents (dumpOf (firstContents bytes)) = firstContents bytes := by
    rw [← hcontents] at hkeys hblob ⊢
    exact firstContents_dumpOf hsound ((dumpable_iff hsound).mpr ⟨hkeys, hblob⟩)
  have hwrite := DumpTool.write_spec hagain (by rwa [hsame]) (by rwa [hsame]) file
  rw [hsame] at hwrite
  exact hwrite

/-! ## All of this together -/

/-- A table is written in order: the value of the empty key, and then every other record once,
in strictly ascending order of the keys. -/
structure InOrder (table : Table) : Prop where
  /-- Writing it succeeds. -/
  answer : (print table).answer = .ok ()
  /-- The records with a header stand behind the value of the empty key, if there is one. -/
  text : (print table).bytes = (table.inMemory.contents.lookup emptyKey).elim [] blob ++
    (headed table.inMemory.contents).flatMap fun entry => field entry.key entry.value
  /-- The order is that of the keys, byte by byte. -/
  ascending : (headed table.inMemory.contents).Pairwise (·.key < ·.key)
  /-- They are all the other records. -/
  complete : ∀ key value, ⟨key, value⟩ ∈ headed table.inMemory.contents ↔
    table.inMemory.contents.lookup key = some value ∧ key ≠ emptyKey

theorem inOrder_print {table : Table} (h : table.inMemory.Sound)
    (hkeys : Writable table.inMemory.contents) : InOrder table := by
  obtain ⟨hanswer, htext⟩ := print_eq_dumpOf h hkeys
  obtain ⟨hascending, hcomplete⟩ := headed_spec table.inMemory.contents
  exact ⟨hanswer, htext, hascending, hcomplete⟩

/-- Tables that hold the same are written the same, in the order of the keys, and tables that
are written the same hold the same, unless the value of an empty key does not read back.
What the tool writes of a file is not changed when the tool is run on it. -/
theorem print_canonical :
    (∀ table other : Table, table.Made → other.Made →
      Writable table.inMemory.contents → Writable other.inMemory.contents →
      InOrder table ∧ InOrder other ∧
      (table.inMemory.contents = other.inMemory.contents →
        (print table).bytes = (print other).bytes) ∧
      (ReadsBack table.inMemory.contents → ReadsBack other.inMemory.contents →
        (print table).bytes = (print other).bytes →
        table.inMemory.contents = other.inMemory.contents)) ∧
    ∀ disk path file bytes, disk.read path = .ok bytes → firstContents bytes ≠ ∅ →
      Writable (firstContents bytes) → ReadsBack (firstContents bytes) →
      (DumpTool.write disk path file).answer = .ok () ∧
        ∀ again other name, again.read other = .ok (DumpTool.write disk path file).output →
          (DumpTool.write again other name).answer = .ok () ∧
          (DumpTool.write again other name).output = (DumpTool.write disk path file).output := by
  refine ⟨?_, ?_⟩
  · intro table other h hother hkeys hkeysOther
    have htext := (print_eq_dumpOf h.sound hkeys).2
    have htextOther := (print_eq_dumpOf hother.sound hkeysOther).2
    refine ⟨inOrder_print h.sound hkeys, inOrder_print hother.sound hkeysOther, ?_, ?_⟩
    · intro hsame
      rw [htext, htextOther, hsame]
    · intro hblob hblobOther hsame
      have hdump := (dumpable_iff h.sound).mpr ⟨hkeys, hblob⟩
      have hdumpOther := (dumpable_iff hother.sound).mpr ⟨hkeysOther, hblobOther⟩
      rw [htext, htextOther] at hsame
      rw [← firstContents_dumpOf h.sound hdump, hsame,
        firstContents_dumpOf hother.sound hdumpOther]
  · intro disk path file bytes h hsome hkeys hblob
    obtain ⟨hanswer, houtput⟩ := DumpTool.write_spec h hsome hkeys file
    refine ⟨hanswer, fun again other name hagain => ?_⟩
    rw [houtput] at hagain ⊢
    exact write_dumpOf h hsome hkeys hblob hagain name

/-- The records of `mixed` in a table of another kind, with more buckets, after a removal. -/
def mixedAgain : Table :=
  let fresh : Table := .file (.anonymous { initialBuckets := 16 })
  let other := (fresh.store .empty [0x78, 0x00] (.given [])).table
  let named := (other.store .empty [0x40, 0x00] (.given [0xff])).table
  let text := (named.store .empty [0x61, 0x20, 0x62, 0x00] (.given [0x40, 0x0a, 0x00])).table
  ((text.delete .empty [0x78, 0x00]).table.store .empty emptyKey (.given [0x68, 0x69, 0x00])).table

theorem made_mixedAgain : mixedAgain.Made :=
  (((((Table.Made.file { initialBuckets := 16 }).step (.store _ _ _ _)).step
    (.store _ _ _ _)).step (.store _ _ _ _)).step (.delete _ _ _)).step (.store _ _ _ _)

/-- A disk with a file that holds these bytes. -/
def holding (bytes : Bytes) : Disk := ⟨[(["t"], .file 0)], #[⟨bytes.toArray, 0o644⟩]⟩

theorem read_holding (bytes : Bytes) : (holding bytes).read ⟨"t"⟩ = .ok bytes :=
  Disk.read_eq_ok_iff.mpr ⟨0, by cbv, rfl⟩

/-- A first set that is not in order, and a second. -/
def unordered : Bytes := Bytes.ofText "@b\nx\n@a\ny\n@\n@c\nz\n"

/-- The walks through the two tables are different, and their dumps are the same.  The tool
puts a set in order once. -/
theorem print_canonical_mixed :
    mixed.Made ∧ mixedAgain.Made ∧ Writable mixed.inMemory.contents ∧
      Writable mixedAgain.inMemory.contents ∧
      mixed.inMemory.entries ≠ mixedAgain.inMemory.entries ∧
      (print mixed).bytes = (print mixedAgain).bytes ∧
      ReadsBack mixed.inMemory.contents ∧ ReadsBack mixedAgain.inMemory.contents ∧
      mixed.inMemory.contents = mixedAgain.inMemory.contents ∧
      firstContents unordered ≠ ∅ ∧ Writable (firstContents unordered) ∧
      ReadsBack (firstContents unordered) ∧
      let tool := DumpTool.write (holding unordered) ⟨"t"⟩ "t"
      tool.answer = .ok () ∧
        (DumpTool.write (holding tool.output) ⟨"t"⟩ "t").output = tool.output := by
  obtain ⟨htables, hfiles⟩ := print_canonical
  have hmixed : mixed.Made := reachable_mixed.made
  have hcontents : mixed.inMemory.contents = mixedAgain.inMemory.contents := by decide +kernel
  obtain ⟨hkeys, hblob⟩ := (dumpable_iff hmixed.sound).mp dumpable_mixed
  have hkeysAgain : Writable mixedAgain.inMemory.contents := hcontents ▸ hkeys
  have hblobAgain : ReadsBack mixedAgain.inMemory.contents := hcontents ▸ hblob
  obtain ⟨-, -, hsame, hback⟩ := htables mixed mixedAgain hmixed made_mixedAgain hkeys hkeysAgain
  have hfirst : firstContents unordered =
      Contents.ofChanges (Contents.stores
        [⟨[0x62, 0x00], [0x78, 0x00]⟩, ⟨[0x61, 0x00], [0x79, 0x00]⟩]) := by
    decide +kernel
  have hsome : firstContents unordered ≠ ∅ := by
    rw [hfirst]
    decide +kernel
  have hset : Writable (firstContents unordered) := by
    rw [hfirst]
    intro key hkey _
    have hkey : key = [0x61, 0x00] ∨ key = [0x62, 0x00] := by
      simpa [Contents.ofChanges, Contents.stores, Contents.apply, Finmap.mem_insert,
        Finmap.notMem_empty] using hkey
    rcases hkey with rfl | rfl <;> decide
  have hnone : ReadsBack (firstContents unordered) := by
    intro value hvalue
    have hlookup : (firstContents unordered).lookup emptyKey = none := by
      rw [hfirst]
      decide +kernel
    rw [hlookup] at hvalue
    cases hvalue
  obtain ⟨hanswer, hagain⟩ := hfiles _ _ "t" _ (read_holding unordered) hsome hset hnone
  exact ⟨hmixed, made_mixedAgain, hkeys, hkeysAgain, by decide +kernel, hsame hcontents, hblob,
    hblobAgain, hback hblob hblobAgain (hsame hcontents), hsome, hset, hnone, hanswer,
    (hagain _ _ "t" (read_holding _)).2⟩

end Dump
end KeyTable
