import Mathlib
import KeyTable.Proofs.Dump.Canonical

/-!
# The value of the empty key

The value of the empty key is written as it is, so its lines may be anything to a reader:
headers, terminators, or value lines that mean something else than they are.  The writer
warns of such a value by its looks alone (`blobReadsBack`).  A value that looks well is read
as it was.  One that does not might still be, if its lines brought about a record of the
empty key with that very value; but they are too few for it, or too short.

* `value_recordOf_ne` — a record with a header has another value than the text it is from:
  the header is one line too many, and base64 is longer than what it writes.
* `blobReadsBack_of_headless` — lines without a header are read as they are, or become fewer
  or shorter.
* `emitted_dumpOf_eq` — the records behind the value have other keys.
* `notices_print` — what the writer warns of.
* `blob_kept_unless_warned` — so the value is read as it was, unless the writer has warned of
  it; and it is another then, or none.
-/

namespace KeyTable
namespace Dump

open Grammar

/-! ## The lines of the value -/

theorem any_rawLines_startsWithAt (text : Bytes) :
    text.rawLines.any startsWithAt = (text.splitOn Ascii.newline).any startsWithAt := by
  fun_induction Bytes.rawLines text with
  | case1 => rfl
  | case2 text hnone _ =>
    rw [List.splitOn_eq_singleton (Bytes.newline_notMem_of_fromNewline_eq_nil hnone)]
  | case3 text b rest hsome ih =>
    rw [Bytes.splitOn_of_fromNewline_eq_cons hsome, List.any_cons, List.any_cons, ih,
      Bytes.eq_newline_of_fromNewline_eq_cons hsome, startsWithAt_append_newline]

/-- A value whose lines a reader takes as they are reads back. -/
theorem blobReadsBack_of_lines {value line : Bytes} {lines : List Bytes}
    (hlast : value.getLast? = some Ascii.nul) (hnul : Ascii.nul ∉ value.dropLast)
    (hlines : blobLines value = line :: lines) (hline : line ≠ [])
    (hat : ∀ other ∈ line :: lines, startsWithAt other = false) : blobReadsBack value = true := by
  have hdrop : value.dropNul = value.dropLast := if_pos hlast
  rw [blobLines, hdrop] at hlines
  have hnewline : Ascii.newline ∉ line :=
    Bytes.newline_notMem_of_mem_splitOn (by rw [hlines]; exact List.mem_cons_self)
  have hany : (Bytes.rawLines value.dropLast).any startsWithAt = false := by
    rw [any_rawLines_startsWithAt, hlines]
    simpa using hat
  -- the text opens with the first byte of its first line
  have htext := Bytes.unlines_splitOn value.dropLast
  rw [hlines, Bytes.unlines_cons] at htext
  obtain ⟨b, rest, rfl⟩ := List.exists_cons_of_ne_nil hline
  rw [List.mem_cons, not_or] at hnewline
  cases hvalue : value.dropLast with
  | nil =>
    rw [hvalue, List.cons_append, List.nil_append, List.cons.injEq] at htext
    exact absurd htext.1.symm hnewline.1
  | cons c text =>
    rw [hvalue, List.cons_append, List.cons_append, List.cons.injEq] at htext
    have hc : c ≠ Ascii.newline := htext.1 ▸ Ne.symm hnewline.1
    rw [hvalue] at hnul hany
    simp [blobReadsBack, hlast, hvalue, hnul, hany, hc]

/-- All lines together have no more bytes than the value. -/
theorem length_flatten_blobLines_le (value : Bytes) :
    (blobLines value).flatten.length ≤ value.length := by
  have hunlines := congrArg List.length (Bytes.unlines_splitOn value.dropNul)
  have hlines := List.length_pos_iff.mpr (value.dropNul.splitOn_ne_nil Ascii.newline)
  have hdrop : value.dropNul.length ≤ value.length := by
    unfold Bytes.dropNul
    split
    · rw [List.length_dropLast]
      exact Nat.sub_le _ _
    · exact Nat.le_refl _
  rw [Bytes.length_unlines, List.length_append, List.length_singleton] at hunlines
  unfold blobLines
  omega

/-- The lines of a text are what it was made of. -/
theorem blobLines_textOf {contents : List Bytes} (hne : contents ≠ [])
    (hcontents : ∀ content ∈ contents, Ascii.newline ∉ content) :
    blobLines (textOf contents) = contents := by
  have hdrop : (textOf contents).dropNul = [Ascii.newline].intercalate contents := by
    have hlast : (textOf contents).getLast? = some 0 := by
      rw [textOf, if_neg hne, List.getLast?_concat]
      rfl
    rw [Bytes.dropNul, if_pos hlast, textOf, if_neg hne, List.dropLast_concat]
  rw [blobLines, hdrop]
  exact List.splitOn_intercalate _ hcontents hne

/-! ## What cannot be read from the lines -/

theorem newline_notMem_contentOf {line : Bytes} (h : Ascii.newline ∉ line) :
    Ascii.newline ∉ contentOf line := by
  unfold contentOf
  split
  · exact fun hmem => h (List.mem_of_mem_tail hmem)
  · exact h

theorem startsWithAt_of_contentOf_eq {line : Bytes} (h : contentOf line = line) :
    startsWithAt line = false := by
  cases line with
  | nil => rfl
  | cons b rest =>
    by_cases hb : b = Ascii.atSign
    · have hlength := congrArg List.length h
      simp [contentOf, hb] at hlength
    · simpa [startsWithAt] using hb

theorem length_contentOf_le (line : Bytes) : (contentOf line).length ≤ line.length := by
  unfold contentOf
  split
  · rw [List.length_tail]
    exact Nat.sub_le _ _
  · exact Nat.le_refl _

/-- Lines write no more bytes in base64 than they have. -/
theorem length_decoded_le (values : List Bytes) :
    (values.filterMap fun line => Base64.decode? (contentOf line)).flatten.length ≤
      values.flatten.length := by
  induction values with
  | nil => exact Nat.le_refl _
  | cons line values ih =>
    rw [List.filterMap_cons, List.flatten_cons, List.length_append]
    cases hdecode : Base64.decode? (contentOf line) with
    | none => exact Nat.le_trans ih (Nat.le_add_left _ _)
    | some bytes =>
      have hbytes := (Base64.length_le_of_decode? hdecode).trans (length_contentOf_le line)
      rw [List.flatten_cons, List.length_append]
      exact Nat.add_le_add hbytes ih

section Lines

variable {value : Bytes} {front group back : List Bytes}
  (hlines : blobLines value = front ++ group ++ back)
include hlines

theorem newline_notMem_of_mem_group : ∀ line ∈ group, Ascii.newline ∉ line := by
  intro line hline
  have hmem : line ∈ blobLines value := by
    rw [hlines]
    simp [hline]
  exact Bytes.newline_notMem_of_mem_splitOn hmem

/-- No record with a header has the value, for the header would be one line too many, or the
lines behind it too short. -/
theorem value_recordOf_ne {header : Bytes} {values : List Bytes} (hgroup : group = header :: values)
    (hheader : isHeader header = true) : (recordOf header values).value ≠ value := by
  intro hvalue
  have hflat := length_flatten_blobLines_le value
  have hlength := congrArg List.length hlines
  have hfree := newline_notMem_of_mem_group hlines
  have hpos : 0 < header.length := by
    simp only [isHeader, Bool.and_eq_true, decide_eq_true_iff] at hheader
    omega
  rw [hgroup] at hlines hlength hfree
  rw [recordOf] at hvalue
  dsimp only at hvalue
  cases htagged : isTagged header with
  | true =>
    have hdecoded := length_decoded_le values
    rw [htagged, if_pos rfl] at hvalue
    rw [hvalue] at hdecoded
    rw [hlines] at hflat
    simp only [List.flatten_append, List.flatten_cons, List.length_append] at hflat
    omega
  | false =>
    rw [htagged, if_neg Bool.false_ne_true] at hvalue
    by_cases hnone : values = []
    · -- then the value is empty, and has but a blank line
      have hblank : blobLines value = [[]] := by
        rw [← hvalue, hnone]
        rfl
      have hmem : header ∈ blobLines value := by
        rw [hlines]
        simp
      rw [hblank, List.mem_singleton] at hmem
      rw [hmem] at hpos
      exact Nat.lt_irrefl 0 hpos
    · have hcontents : ∀ content ∈ values.map contentOf, Ascii.newline ∉ content := by
        intro content hmem
        obtain ⟨line, hline, rfl⟩ := List.mem_map.mp hmem
        exact newline_notMem_contentOf (hfree line (List.mem_cons_of_mem _ hline))
      rw [← hvalue, blobLines_textOf (by simpa using hnone) hcontents] at hlength
      simp only [List.length_append, List.length_cons, List.length_map] at hlength
      omega

/-- If a record without a header has the value, all lines are its own. -/
theorem blobReadsBack_of_headless {values : List Bytes} (hgroup : values <:+ group)
    (h : .record ⟨emptyKey, value⟩ ∈ headless values) (hnul : Ascii.nul ∉ value.dropLast) :
    blobReadsBack value = true := by
  obtain ⟨content, contents, hne, hsuffix, hentry⟩ := exists_of_mem_headless h
  rw [Entry.mk.injEq] at hentry
  have hfree := newline_notMem_of_mem_group hlines
  have hcontents : ∀ other ∈ content :: contents, Ascii.newline ∉ other := by
    intro other hmem
    obtain ⟨line, hline, rfl⟩ := List.mem_map.mp (hsuffix.subset hmem)
    exact newline_notMem_contentOf (hfree line (hgroup.subset hline))
  have htext := blobLines_textOf (List.cons_ne_nil content contents) hcontents
  rw [← hentry.2] at htext
  -- there are no more lines than contents, so nothing was dropped
  have hlength := congrArg List.length (htext.symm.trans hlines)
  have hshort := hsuffix.length_le
  have hshorter := hgroup.length_le
  simp only [List.length_append, List.length_map] at hlength hshort
  have hall : content :: contents = values.map contentOf := hsuffix.eq_of_length (by
    rw [List.length_map]
    omega)
  have hwhole : values = group := hgroup.eq_of_length (by omega)
  have hfront : front = [] := List.eq_nil_of_length_eq_zero (by omega)
  have hback : back = [] := List.eq_nil_of_length_eq_zero (by omega)
  rw [htext, hfront, hback, ← hwhole, List.nil_append, List.append_nil] at hlines
  rw [hlines] at hall
  have hsame := List.map_inj_left.mp ((List.map_id values).trans hall)
  have hlast : value.getLast? = some Ascii.nul := by
    rw [hentry.2, textOf, if_neg (List.cons_ne_nil _ _), List.getLast?_concat]
  refine blobReadsBack_of_lines hlast hnul htext hne ?_
  intro line hline
  rw [hlines] at hline
  exact startsWithAt_of_contentOf_eq (hsame line hline).symm

end Lines

/-- Whatever record these lines bring about, it has another value, unless the value reads
back. -/
theorem blobReadsBack_of_mem {value : Bytes}
    (h : .record ⟨emptyKey, value⟩ ∈ decoded none (blobLines value))
    (hnul : Ascii.nul ∉ value.dropLast) : blobReadsBack value = true := by
  rw [decoded, scan_lines] at h
  obtain ⟨group, hgroup, hitem⟩ := List.mem_flatMap.mp h
  obtain ⟨front, back, hlines⟩ := exists_append_of_mem_groupsOf hgroup
  rcases record_mem_groupItems hitem with
    ⟨header, values, hcons, hheader, hrecord⟩ | ⟨values, hsuffix, hnone⟩
  · exact absurd (congrArg Entry.value hrecord).symm (value_recordOf_ne hlines hcons hheader)
  · exact blobReadsBack_of_headless hlines hsuffix hnone hnul

/-! ## The value in a dump -/

section Printed

variable {table : MemoryTable} (hsound : table.Sound) (hkeys : Writable table.contents)
  {value : Bytes} (hvalue : table.contents.lookup emptyKey = some value)
include hsound hkeys hvalue

/-- The lines of the value bring about what they do without the records behind them, and these
have other keys. -/
theorem emitted_dumpOf_eq :
    ∃ entries : List Entry, (∀ entry ∈ entries, entry.key ≠ emptyKey) ∧
      emitted (dumpOf table.contents) = decoded none (blobLines value) ++ entries.map .record := by
  have hgood : ∀ entry ∈ keyedEntries table.contents (headerKeys table.entries),
      isGoodKey entry.key = true ∧ entry.key ≠ emptyKey := by
    intro entry hentry
    obtain ⟨key, hkey, rfl⟩ := List.mem_map.mp hentry
    obtain ⟨hmem, hne⟩ := mem_headerKeys_iff.mp hkey
    exact ⟨hkeys key (Contents.mem_ofEntries_iff.mpr hmem) hne, hne⟩
  refine ⟨_, fun entry hentry => (hgood entry hentry).2, ?_⟩
  rw [← unlines_printedLines hsound, emitted_eq,
    linesOf_unlines fun line => newline_notMem_of_mem_printedLines, printedLines, hvalue,
    Option.elim_some, decoded_append, decoded, scan_records hgood, decoded, List.append_assoc]

/-- If the value is read from the dump, it reads back. -/
theorem blobReadsBack_of_lookup
    (h : (firstContents (dumpOf table.contents)).lookup emptyKey = some value)
    (hnul : Ascii.nul ∉ value.dropLast) : blobReadsBack value = true := by
  obtain ⟨entries, hother, hemitted⟩ := emitted_dumpOf_eq hsound hkeys hvalue
  have hrecord := record_mem_of_lookup h
  have hall : .record ⟨emptyKey, value⟩ ∈ emitted (dumpOf table.contents) := by
    rw [← emitted_firstSet_append]
    exact List.mem_append_left _ hrecord
  rw [hemitted, List.mem_append] at hall
  rcases hall with hblob | hkeyed
  · exact blobReadsBack_of_mem hblob hnul
  · obtain ⟨entry, hentry, heq⟩ := List.mem_map.mp hkeyed
    rw [Item.record.injEq] at heq
    exact absurd (congrArg Entry.key heq) (hother entry hentry)

/-- If the value reads back, it is read from the dump. -/
theorem lookup_of_blobReadsBack (h : blobReadsBack value = true) :
    (firstContents (dumpOf table.contents)).lookup emptyKey = some value := by
  have hback : ReadsBack table.contents := by
    intro other hother
    rw [hvalue, Option.some_inj] at hother
    rw [← hother]
    exact h
  rw [firstContents_dumpOf hsound ((dumpable_iff hsound).mpr ⟨hkeys, hback⟩), hvalue]

end Printed

/-! ## The warning -/

theorem notices_printFields (table : Table) (keys : List Bytes) :
    (printFields table keys).notices = [] := by
  induction keys generalizing table with
  | nil => rfl
  | cons key keys ih =>
    rw [printFields]
    rcases table.fetch key with ⟨fault | value, fetched⟩
    · rfl
    · exact ih fetched

/-- Nothing is worth knowing about records that are written with a header. -/
theorem notices_printKeyed {table : Table}
    (h : ∀ entry ∈ table.inMemory.entries, isMalformed entry = false) :
    (printKeyed table).notices = [] := by
  obtain ⟨-, hstopped, -⟩ := table.visit_spec isMalformed
  have hnone : table.inMemory.entries.find? isMalformed = none := by
    rw [List.find?_eq_none]
    intro entry hentry
    rw [h entry hentry]
    exact Bool.false_ne_true
  rw [hnone] at hstopped
  rw [printKeyed, hstopped]
  exact notices_printFields _ _

/-- What is worth knowing about the value of the empty key. -/
theorem notices_print {table : Table} (hsound : table.inMemory.Sound)
    (hkeys : Writable table.inMemory.contents) {value : Bytes}
    (hvalue : table.inMemory.contents.lookup emptyKey = some value) :
    (print table).notices = if blobReadsBack value then [] else [.blobLost value.length] := by
  have hsame := table.sameRecords_fetch emptyKey
  have hkeyed : (printKeyed (table.fetch emptyKey).2).notices = [] :=
    notices_printKeyed (hsame.entries_eq ▸ hkeys.isMalformed_eq_false)
  rw [print, Table.fetch_eq_found hsound, hvalue]
  dsimp only [MemoryTable.found]
  rw [hkeyed, List.append_nil]

/-- What becomes of the value of the empty key when a table is written, and what was written is
read. -/
structure BlobKept (table : Table) (value : Bytes) (turn : Turn) : Prop where
  /-- Writing succeeds. -/
  written : (print table).answer = .ok ()
  /-- It warns of the value unless the value reads back. -/
  warned : (print table).notices = if blobReadsBack value then [] else [.blobLost value.length]
  /-- Reading succeeds. -/
  read : ∃ summary, turn.read.answer = .ok summary
  /-- Without a warning, the value is there again. -/
  kept : blobReadsBack value = true →
    turn.read.table.inMemory.contents.lookup emptyKey = some value
  /-- With a warning, it is not, unless a zero byte in it was all there was to warn of. -/
  lost : blobReadsBack value = false → Ascii.nul ∉ value.dropLast →
    turn.read.table.inMemory.contents.lookup emptyKey ≠ some value

/-- The warning of the value of the empty key is neither missing nor misleading. -/
theorem blob_kept_unless_warned {table : Table} (h : table.Made)
    (hkeys : Writable table.inMemory.contents) {value : Bytes}
    (hvalue : table.inMemory.contents.lookup emptyKey = some value) {turn : Turn}
    (htakes : turn.table.Takes turn.stream.origin?)
    (hempty : turn.table.inMemory.contents = ∅) (hbytes : turn.bytes = (print table).bytes) :
    BlobKept table value turn := by
  obtain ⟨hanswer, htext⟩ := print_eq_dumpOf h.sound hkeys
  have hcontents := contents_read htakes hempty
  rw [hbytes, htext] at hcontents
  have hread := (Turn.read_spec htakes).1.answer
  refine ⟨hanswer, notices_print h.sound hkeys hvalue, ⟨_, hread⟩, ?_, ?_⟩
  · intro hback
    rw [hcontents]
    exact lookup_of_blobReadsBack h.sound hkeys hvalue hback
  · intro hlost hnul hthere
    rw [hcontents] at hthere
    rw [blobReadsBack_of_lookup h.sound hkeys hvalue hthere hnul] at hlost
    cases hlost

/-- A table whose value of the empty key opens with a header of the empty key. -/
def selfNaming : Table :=
  (Table.store (.memory .empty) .empty emptyKey (.given (Bytes.ofText "@=\nhi\x00"))).table

/-- The header brings about another value, and the writer has warned of it. -/
theorem blob_kept_unless_warned_self :
    selfNaming.Made ∧ Writable selfNaming.inMemory.contents ∧
      selfNaming.inMemory.contents.lookup emptyKey = some (Bytes.ofText "@=\nhi\x00") ∧
      let turn := reading (print selfNaming).bytes
      turn.table.Takes turn.stream.origin? ∧ turn.table.inMemory.contents = ∅ ∧
        turn.bytes = (print selfNaming).bytes ∧
        blobReadsBack (Bytes.ofText "@=\nhi\x00") = false ∧
        turn.read.table.inMemory.contents.lookup emptyKey = some (Bytes.ofText "hi\x00") ∧
        BlobKept selfNaming (Bytes.ofText "@=\nhi\x00") turn := by
  have hmade : selfNaming.Made := (Table.Made.memory {}).step (.store _ _ _ _)
  have hgood :
      ∀ key ∈ selfNaming.inMemory.contents.keys, key ≠ emptyKey → isGoodKey key = true := by
    decide +kernel
  have hkeys : Writable selfNaming.inMemory.contents :=
    fun key hkey => hgood key (Finmap.mem_keys.mpr hkey)
  have hvalue : selfNaming.inMemory.contents.lookup emptyKey =
      some (Bytes.ofText "@=\nhi\x00") := by decide +kernel
  have htakes := takes_reading (print selfNaming).bytes
  have hempty := contents_reading (print selfNaming).bytes
  have hbytes := bytes_reading (print selfNaming).bytes
  exact ⟨hmade, hkeys, hvalue, htakes, hempty, hbytes, by decide +kernel, by decide +kernel,
    blob_kept_unless_warned hmade hkeys hvalue htakes hempty hbytes⟩

end Dump
end KeyTable
