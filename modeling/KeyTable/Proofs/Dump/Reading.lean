import KeyTable.Dump.Load
import KeyTable.Proofs.Dump.Feeding
import KeyTable.Proofs.MemoryTable.Contents
import KeyTable.Proofs.Stream

/-!
# Reading lines into a table in memory

What the records in a stream's lines do to a sound table in memory: they are all
stored, in their order, and none of them is refused.

* `deliver_records` — handing records to a table stores them.
* `readLines_lines` — reading lines leaves the stream behind them, with their
  records stored.
* `readSet_of_end`, `readSet_of_terminator` — so a set is read as a whole, whether
  the stream ends behind it or a terminator does.
-/

namespace KeyTable
namespace Dump

open Contents (stores)

/-! ## Handing records on -/

/-- What has been read when these records have been stored as well. -/
def Loading.storing (loading : Loading) (memory : MemoryTable) (entries : List Entry) :
    Loading where
  table := .memory ((stores entries).foldl MemoryTable.apply memory)
  disk := loading.disk
  summary := { loading.summary with records := loading.summary.records + entries.length }

theorem Loading.storing_storing (loading : Loading) (memory : MemoryTable)
    (entries others : List Entry) :
    (loading.storing memory entries).storing
        ((stores entries).foldl MemoryTable.apply memory) others =
      loading.storing memory (entries ++ others) := by
  simp only [Loading.storing, stores, List.map_append, List.foldl_append, List.length_append,
    Nat.add_assoc]

/-- Handing records to a table in memory stores them. -/
theorem deliver_records {loading : Loading} {memory : MemoryTable} (hsound : memory.Sound)
    (htable : loading.table = .memory memory) (entries : List Entry) :
    deliver Loading.accept (entries.map Item.record) loading =
      (.ok (), loading.storing memory entries) := by
  induction entries generalizing loading memory with
  | nil =>
    rw [List.map_nil, deliver, Loading.storing, stores, List.map_nil, List.foldl_nil, ← htable]
    rfl
  | cons entry entries ih =>
    have hstore := (hsound.store_spec entry.key (.given entry.value)).1
    have haccept : loading.accept (.record entry) =
        (.ok (), loading.storing memory [entry]) := by
      simp only [Loading.accept, htable, Table.store, hstore]
      rfl
    have hlater :=
      @ih (loading.storing memory [entry]) _ (hsound.foldl_apply (stores [entry])).1 rfl
    rw [List.map_cons, deliver, haccept]
    dsimp only
    rw [hlater, Loading.storing_storing, List.singleton_append]

/-! ## Reading lines -/

/-- The same, behind more that was worth knowing. -/
def Loaded.behind (loaded : Loaded) (notices : List Notice) : Loaded :=
  { loaded with notices := notices ++ loaded.notices }

section Reading

variable {loading : Loading} {memory : MemoryTable} {stream : Stream} (hsound : memory.Sound)
  (htable : loading.table = .memory memory) (hcapacity : 0 < stream.capacity)
include hsound htable hcapacity

/-- Reading lines stores the records that they complete. -/
theorem readLines_lines (hopen : loading.summary.endOfSet = false) {lines : List Bytes}
    (hlines : ∀ line ∈ lines, Ascii.newline ∉ line) {pending final : Option Pending}
    {entries : List Entry} (hscan : scan pending lines = (entries.map Item.record, final))
    {rest : Bytes} (hremaining : stream.remaining loading.disk = Bytes.unlines lines ++ rest)
    (limit : Nat) :
    ∃ behind notices, behind.remaining loading.disk = rest ∧ 0 < behind.capacity ∧
      readLines (lines.length + limit) ⟨pending, []⟩ loading stream =
        (readLines limit ⟨final, []⟩ (loading.storing memory entries) behind).behind notices := by
  induction lines generalizing pending entries loading memory stream with
  | nil =>
    rw [scan, Prod.mk.injEq] at hscan
    obtain ⟨hentries, rfl⟩ := hscan
    rw [List.map_eq_nil_iff.mp hentries.symm]
    have hnone : loading.storing memory [] = loading := by
      rw [Loading.storing, stores, List.map_nil, List.foldl_nil, ← htable]
      rfl
    exact ⟨stream, [], hremaining, hcapacity, by rw [List.length_nil, Nat.zero_add, hnone]; rfl⟩
  | cons line lines ih =>
    rw [scan_cons, Prod.mk.injEq] at hscan
    obtain ⟨hitems, hfinal⟩ := hscan
    obtain ⟨first, others, rfl, hfirst, hothers⟩ := List.map_eq_append_iff.mp hitems.symm
    rw [Bytes.unlines_cons, List.append_assoc, List.cons_append] at hremaining
    obtain ⟨left, hread, hleft, hkept⟩ :=
      Stream.readLine?_of_cons hcapacity (hlines line List.mem_cons_self) hremaining
    have hfed : Decoder.feedLine ⟨pending, []⟩ Loading.accept loading line =
        ⟨.ok (), ⟨(step pending line).pending, []⟩, loading.storing memory first,
          (step pending line).notices⟩ := by
      simp only [Decoder.feedLine, ← hfirst, deliver_records hsound htable]
    obtain ⟨behind, notices, hbehind, hpos, hlater⟩ :=
      @ih (loading.storing memory first) _ left (hsound.foldl_apply (stores first)).1 rfl
        (hkept ▸ hcapacity) hopen (fun other hother => hlines other (List.mem_cons_of_mem _ hother))
        (step pending line).pending others (Prod.ext hothers.symm hfinal) hleft
    refine ⟨behind, (step pending line).notices ++ notices, hbehind, hpos, ?_⟩
    rw [List.length_cons, Nat.add_right_comm, readLines, hread]
    simp only [hfed]
    rw [show (loading.storing memory first).summary.endOfSet = false from hopen, hlater,
      Loading.storing_storing]
    simp [Loaded.behind]

/-- At the end of the stream, the record being collected is stored. -/
theorem readLines_end {final : Option Pending} {entries : List Entry}
    (hfinal : completed final = entries.map Item.record)
    (hremaining : stream.remaining loading.disk = []) (limit : Nat) :
    readLines limit ⟨final, []⟩ loading stream =
      .ofFed ⟨.ok (), {}, loading.storing memory entries, []⟩ stream := by
  have hfinish : Decoder.finish ⟨final, []⟩ Loading.accept loading =
      ⟨.ok (), {}, loading.storing memory entries, []⟩ := by
    simp only [Decoder.finish, Decoder.feedRest, if_true, hfinal, deliver_records hsound htable]
  cases limit with
  | zero => rw [readLines, hfinish]
  | succ limit => rw [readLines, Stream.readLine?_of_nil hcapacity hremaining, hfinish]

/-- So it is at a terminator, behind which the stream is left. -/
theorem readLines_terminator {final : Option Pending} {entries : List Entry}
    (hfinal : completed final = entries.map Item.record) {rest : Bytes}
    (hremaining : stream.remaining loading.disk = terminatorLine ++ rest) (limit : Nat) :
    ∃ behind, behind.remaining loading.disk = rest ∧
      readLines (limit + 1) ⟨final, []⟩ loading stream =
        .ofFed ⟨.ok (), {},
          { loading.storing memory entries with
            summary := ⟨loading.summary.records + entries.length, true⟩ }, []⟩ behind := by
  have hline : stream.remaining loading.disk = [Ascii.atSign] ++ Ascii.newline :: rest := hremaining
  obtain ⟨behind, hread, hbehind, -⟩ := Stream.readLine?_of_cons hcapacity (by decide) hline
  have hdeliver := deliver_append Loading.accept (entries.map Item.record) [.endOfSet]
    (deliver_records hsound htable entries)
  have hfed : Decoder.feedLine ⟨final, []⟩ Loading.accept loading [Ascii.atSign] =
      ⟨.ok (), {},
        { loading.storing memory entries with
          summary := ⟨loading.summary.records + entries.length, true⟩ }, []⟩ := by
    have hstep : step final [Ascii.atSign] = ⟨entries.map Item.record ++ [.endOfSet], none, []⟩ := by
      rw [← hfinal]
      rfl
    simp only [Decoder.feedLine, hstep, hdeliver]
    rfl
  refine ⟨behind, hbehind, ?_⟩
  rw [readLines, hread]
  simp only [hfed, if_true]

end Reading

/-! ## Whole sets -/

section Sets

variable {memory : MemoryTable} (hsound : memory.Sound) {disk : Disk} {stream : Stream}
  (hcapacity : 0 < stream.capacity) {lines : List Bytes}
  (hlines : ∀ line ∈ lines, Ascii.newline ∉ line) {entries : List Entry}
  (hscan : (scan none lines).1 ++ completed (scan none lines).2 = entries.map Item.record)
include hsound hcapacity hlines hscan

/-- A set up to the end of a stream. -/
theorem readSet_of_end (hremaining : stream.remaining disk = Bytes.unlines lines) :
    (readSet (.memory memory) disk stream).answer = .ok ⟨entries.length, false⟩ ∧
      (readSet (.memory memory) disk stream).table =
        .memory ((stores entries).foldl MemoryTable.apply memory) ∧
      (readSet (.memory memory) disk stream).disk = disk := by
  obtain ⟨front, last, rfl, hfront, hlast⟩ := List.map_eq_append_iff.mp hscan.symm
  have hlimit : lines.length + (lineLimit disk stream - lines.length) = lineLimit disk stream := by
    have hcount := Bytes.length_le_length_unlines lines
    rw [← hremaining] at hcount
    unfold lineLimit
    omega
  obtain ⟨behind, notices, hbehind, hpos, hread⟩ :=
    @readLines_lines ⟨.memory memory, disk, ⟨0, false⟩⟩ memory stream hsound rfl hcapacity rfl
      lines hlines none (scan none lines).2 front (Prod.ext hfront.symm rfl) []
      (by rw [List.append_nil]; exact hremaining) (lineLimit disk stream - lines.length)
  have hend := @readLines_end (Loading.storing ⟨.memory memory, disk, ⟨0, false⟩⟩ memory front) _
    behind (hsound.foldl_apply (stores front)).1 rfl hpos _ last hlast.symm hbehind
    (lineLimit disk stream - lines.length)
  rw [hlimit, hend, Loading.storing_storing] at hread
  rw [readSet, readSetUpTo, hread]
  refine ⟨?_, rfl, rfl⟩
  show Except.ok (⟨0 + (front ++ last).length, false⟩ : Summary) = _
  rw [Nat.zero_add]

/-- A set up to a terminator. -/
theorem readSet_of_terminator {rest : Bytes}
    (hremaining : stream.remaining disk = Bytes.unlines lines ++ (terminatorLine ++ rest)) :
    (readSet (.memory memory) disk stream).answer = .ok ⟨entries.length, true⟩ ∧
      (readSet (.memory memory) disk stream).table =
        .memory ((stores entries).foldl MemoryTable.apply memory) ∧
      (readSet (.memory memory) disk stream).disk = disk ∧
      (readSet (.memory memory) disk stream).rest.remaining disk = rest := by
  obtain ⟨front, last, rfl, hfront, hlast⟩ := List.map_eq_append_iff.mp hscan.symm
  obtain ⟨limit, hlimit⟩ : ∃ limit, lineLimit disk stream = lines.length + (limit + 1) := by
    have hcount := Bytes.length_le_length_unlines lines
    have hlength := congrArg List.length hremaining
    rw [List.length_append] at hlength
    refine ⟨lineLimit disk stream - lines.length - 1, ?_⟩
    unfold lineLimit
    omega
  obtain ⟨behind, notices, hbehind, hpos, hread⟩ :=
    @readLines_lines ⟨.memory memory, disk, ⟨0, false⟩⟩ memory stream hsound rfl hcapacity rfl
      lines hlines none (scan none lines).2 front (Prod.ext hfront.symm rfl) _ hremaining (limit + 1)
  obtain ⟨left, hleft, hend⟩ := @readLines_terminator
    (Loading.storing ⟨.memory memory, disk, ⟨0, false⟩⟩ memory front) _ behind
    (hsound.foldl_apply (stores front)).1 rfl hpos _ last hlast.symm rest hbehind limit
  rw [← hlimit, hend, Loading.storing_storing] at hread
  rw [readSet, readSetUpTo, hread]
  refine ⟨?_, rfl, rfl, hleft⟩
  show Except.ok (⟨0 + front.length + last.length, true⟩ : Summary) = _
  rw [Nat.zero_add, List.length_append]

end Sets

end Dump
end KeyTable
