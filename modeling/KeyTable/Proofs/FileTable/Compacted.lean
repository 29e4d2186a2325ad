import KeyTable.Proofs.FileTable.Crash
import KeyTable.Proofs.FileTable.Reopening
import KeyTable.Proofs.MemoryTable.Actions

/-!
# Compacted tables

Compaction replaces the log of a table by one that holds each record once.  It does not
touch the table in memory, and the new log is no longer than the old one: what is stored
under a key has been logged, so each of the new frames takes the place of one of the old
(`Mirrors.length_recordFrames_le`).  From there on the table goes on as after being opened.

`Reached.compacted` says so at every point of every history.
-/

namespace KeyTable
namespace FileTable

open Log (Frame ofFrames)

variable {path : Path} {session : Session} {log : Log.Appender} {frames : List Frame}

/-! ## How long the new log is -/

theorem length_joined (frames : List Frame) :
    (Log.joined frames).length = (frames.map (·.bytes.length)).sum := List.length_flatMap

/-- The new log is no longer than the old one. -/
theorem Mirrors.length_recordFrames_le {table : FileTable} {disk : Disk}
    (h : Mirrors path table disk log frames) :
    (ofFrames (recordFrames table.memory)).length ≤ (ofFrames frames).length := by
  let size : Change → Nat := fun change => (Log.encodeFrame change).length
  -- every record takes the place of a frame of its own
  obtain ⟨chosen, hperm, hsublist⟩ :=
    List.subperm_of_subset (Contents.nodup_stores h.sound.nodup_entries) h.stores_subset
  have hjoined : (Log.joined (recordFrames table.memory)).length ≤ (Log.joined frames).length :=
    calc (Log.joined (recordFrames table.memory)).length
      _ = ((Contents.stores table.memory.entries).map size).sum := by
        rw [length_joined, recordFrames, List.map_map]
        rfl
      _ = (chosen.map size).sum := (hperm.map size).sum_nat.symm
      _ ≤ ((frames.map Frame.change).map size).sum :=
        (hsublist.map size).sum_le_sum fun _ _ => Nat.zero_le _
      _ = (frames.map fun frame => size frame.change).sum := by rw [List.map_map]; rfl
      _ ≤ (frames.map (·.bytes.length)).sum :=
        List.sum_le_sum fun frame hframe => (h.intact frame hframe).length_encodeFrame_le
      _ = (Log.joined frames).length := (length_joined frames).symm
  rw [ofFrames, ofFrames, List.length_append, List.length_append]
  exact Nat.add_le_add_left hjoined _

/-! ## Calls that change nothing -/

/-- A call that makes no change leaves every record where it is. -/
theorem Mirrors.sameRecords_of_made? (h : Mirrors path session.table session.disk log frames)
    {call : Call} (hmade : session.made? call = none) :
    MemoryTable.SameRecords (session.perform call).2.table.memory session.table.memory := by
  cases call with
  | store key content =>
    have hok : (session.perform (.store key content)).1 = .ok () := by
      show (session.table.store session.disk key content).answer.map _ = _
      rw [answer_store h.writable, (h.sound.store_spec key content).1]
      rfl
    rw [made?_of_ok hok] at hmade
    cases hmade
  | insert key content =>
    by_cases hmem : key ∈ session.table.memory.contents
    · show MemoryTable.SameRecords
        (session.table.insert session.disk key content).table.memory session.table.memory
      rw [memory_insert, if_neg (ne_true_of_eq_false h.writable)]
      exact h.sound.sameRecords_insert hmem content
    · have hok : (session.perform (.insert key content)).1 = .ok () := by
        show (session.table.insert session.disk key content).answer.map _ = _
        rw [answer_insert h.writable, (h.sound.insert_of_notMem hmem content).1]
        rfl
      rw [made?_of_ok hok] at hmade
      cases hmade
  | delete key =>
    by_cases hmem : key ∈ session.table.memory.contents
    · have hok : (session.perform (.delete key)).1 = .ok () := by
        show (session.table.delete session.disk key).answer = _
        rw [answer_delete h.writable h.sound, (h.sound.delete_of_mem hmem).1]
      rw [made?_of_ok hok] at hmade
      cases hmade
    · show MemoryTable.SameRecords
        (session.table.delete session.disk key).table.memory session.table.memory
      rw [memory_delete h.sound, if_neg (ne_true_of_eq_false h.writable),
        h.sound.delete_of_notMem hmem]
      exact ⟨rfl, rfl⟩
  | fetch key => exact MemoryTable.sameRecords_fetch _ key
  | first => exact MemoryTable.sameRecords_first _
  | next => exact MemoryTable.sameRecords_next _
  | sync =>
    show MemoryTable.SameRecords (session.table.sync session.disk).1.memory session.table.memory
    rw [memory_sync]
    exact ⟨rfl, rfl⟩
  | compact =>
    show MemoryTable.SameRecords (session.table.compact session.disk).table.memory
      session.table.memory
    rw [memory_compact]
    exact ⟨rfl, rfl⟩

/-- So do any number of such calls, compaction among them. -/
theorem Mirrors.sameRecords_run (h : Mirrors path session.table session.disk log frames)
    {calls : List Call} (hnone : session.changes calls = []) :
    MemoryTable.SameRecords (session.run calls).table.memory session.table.memory ∧
      ∃ last more, Mirrors path (session.run calls).table (session.run calls).disk last more := by
  induction calls generalizing session log frames with
  | nil => exact ⟨⟨rfl, rfl⟩, log, frames, h⟩
  | cons call calls ih =>
    rw [Session.changes, List.append_eq_nil_iff, Option.toList_eq_nil_iff] at hnone
    obtain ⟨hmade, hrest⟩ := hnone
    have hpayload : ∀ change ∈ session.made? call, (Log.payload change).length < 2 ^ 32 := by
      intro change hchange
      rw [hmade] at hchange
      cases hchange
    obtain ⟨next, more, hnext, -⟩ := h.perform hpayload
    obtain ⟨hsame, hlast⟩ := ih hnext hrest
    exact ⟨hsame.trans (h.sameRecords_of_made? hmade), hlast⟩

/-! ## Compaction -/

/-- What compaction makes of a session. -/
structure Compacted (path : Path) (session after : Session) : Prop where
  /-- The table in memory is what it was: its records, where its walk is, and its
  cursor. -/
  memory_eq : after.table.memory = session.table.memory
  /-- The file holds a header, and a frame for each record. -/
  written : after.disk.read path =
    .ok (Log.header ++ session.table.memory.entries.flatMap fun entry =>
      Log.encodeFrame (.store entry.key entry.value))
  /-- Nothing is left in the buffer. -/
  buffered : after.buffered = []
  /-- These are the records that a scan lists, in its order. -/
  listed : (session.table.memory.scan.take session.table.memory.count).1 =
    session.table.memory.entries
  /-- No key has two records. -/
  nodup : (session.table.memory.entries.map Entry.key).Nodup
  /-- Every key has one, with its present value. -/
  mem_iff : ∀ key value,
    ⟨key, value⟩ ∈ session.table.memory.entries ↔ session.table.memory.get? key = some value
  /-- The file is no longer than it would have been if the table had been given up. -/
  length_le : ∀ ending, ∃ old new, (session.ended ending).read path = .ok old ∧
    after.disk.read path = .ok new ∧ new.length ≤ old.length
  /-- The file that the new log was written to is gone. -/
  scratch : after.disk.find (path.extended scratchSuffix) = .ok none
  /-- If nothing is changed and the table is compacted again, the file is the same. -/
  again : ∀ calls, after.changes calls = [] →
    (∀ error, ((after.run calls).perform .compact).1 ≠ .error (.disk error)) →
    ((after.run calls).perform .compact).2.disk.read path = after.disk.read path
  /-- Whatever is changed and however the table is given up then, to open the file again gives
  the records as they are then, from a frame for each record that there was when the table
  was compacted and one for each change since. -/
  reopened : ∀ (calls : List Call) (ending : Ending) (flags : OpenFlags) (settings : Settings),
    .compact ∉ calls → (∀ change ∈ after.changes calls, (Log.payload change).length < 2 ^ 32) →
    settings.flaw? = none → flags.flaw? = none → flags.truncate = false →
    ∃ table, (openAt ((after.run calls).ended ending) path flags settings).answer = .ok table ∧
      table.memory.contents = (after.run calls).table.memory.contents ∧
      table.memory.contents =
        (after.changes calls).foldl Contents.apply session.table.memory.contents ∧
      table.recovery.applied = session.table.memory.count + (after.changes calls).length ∧
      table.recovery.discarded = 0

/-- Compaction succeeds unless the disk fails. -/
theorem Mirrors.perform_compact (h : Mirrors path session.table session.disk log frames)
    (hmade : ∀ error, (session.perform .compact).1 ≠ .error (.disk error)) :
    (session.perform .compact).1 = .ok () := by
  rcases h.compact with ⟨error, hanswer, -⟩ | ⟨-, hanswer, -⟩
  · exact absurd hanswer (hmade error)
  · exact hanswer

/-- With nothing in the buffer, the whole log can be read from its path. -/
theorem Mirrors.read_eq {table : FileTable} {disk : Disk} (h : Mirrors path table disk log frames)
    (hpending : log.pending = []) : disk.read path = .ok (ofFrames frames) := by
  obtain ⟨-, hnamed, hcontents⟩ := h.settled (.refl h.fits) hpending
  exact Disk.read_eq_ok_iff.mpr ⟨log.file, hnamed, hcontents⟩

/-- After compaction, the file holds a frame for each record. -/
theorem Mirrors.compact_of_ok (h : Mirrors path session.table session.disk log frames)
    (hok : (session.perform .compact).1 = .ok ()) :
    ∃ fresh, Mirrors path (session.perform .compact).2.table (session.perform .compact).2.disk fresh
        (recordFrames session.table.memory) ∧
      (session.perform .compact).2.buffered = [] ∧
      (session.perform .compact).2.disk.read path =
        .ok (ofFrames (recordFrames session.table.memory)) ∧
      (session.perform .compact).2.disk.find (path.extended scratchSuffix) = .ok none := by
  obtain ⟨file, hreplace, hlog⟩ := h.exists_replaceLog hok
  have hsynced := h.sync
  rw [sync_eq h.hasLog] at hsynced
  rcases h.compact with ⟨error, hanswer, -⟩ | ⟨fresh, -, hfresh⟩
  · have hfailed : (session.perform .compact).1 = .error (.disk error) := hanswer
    rw [hfailed] at hok
    cases hok
  · have hsame : fresh = .onFile file .tail session.table.policy :=
      Option.some_inj.mp (hfresh.hasLog.symm.trans hlog)
    have hpending : fresh.pending = [] := by rw [hsame]; rfl
    refine ⟨fresh, hfresh, ?_, hfresh.read_eq hpending,
      find_scratch_of_replaceLog hsynced.made hsynced.named hreplace⟩
    show Session.buffered ⟨_, _⟩ = []
    rw [Session.buffered, hfresh.hasLog]
    exact hpending

theorem Mirrors.compacted_of_ok (h : Mirrors path session.table session.disk log frames)
    (hok : (session.perform .compact).1 = .ok ()) :
    Compacted path session (session.perform .compact).2 := by
  obtain ⟨fresh, hfresh, hbuffered, hread, hscratch⟩ := h.compact_of_ok hok
  have hmemory : (session.perform .compact).2.table.memory = session.table.memory :=
    memory_compact session.table session.disk
  generalize (session.perform .compact).2 = after at hfresh hbuffered hread hscratch hmemory ⊢
  refine ⟨hmemory, ?_, hbuffered, h.sound.take_scan_count, h.sound.nodup_entries, ?_, ?_,
    hscratch, ?_, ?_⟩
  · rw [hread, ← compactLog_eq]
    rfl
  · intro key value
    rw [← h.sound.lookup_contents, MemoryTable.contents]
    exact (Contents.lookup_ofEntries_eq_some_iff h.sound.nodup_entries).symm
  · intro ending
    obtain ⟨-, hnamed, hcontents⟩ := h.ended ending
    exact ⟨_, _, Disk.read_eq_ok_iff.mpr ⟨_, hnamed, hcontents⟩, hread, h.length_recordFrames_le⟩
  · intro calls hnone hmade
    obtain ⟨hsame, last, more, hlast⟩ := hfresh.sameRecords_run hnone
    have hagain := hlast.perform_compact hmade
    obtain ⟨-, -, -, hreadAgain, -⟩ := hlast.compact_of_ok hagain
    rw [hreadAgain, hread, recordFrames, recordFrames, hsame.entries_eq, hmemory]
  · intro calls ending flags settings hcompact hpayload hsettings hflags htruncate
    obtain ⟨last, hlast⟩ := hfresh.exists_run hcompact hpayload
    obtain ⟨table, hanswer, hcontents, happlied, hdiscarded⟩ :=
      hlast.reopen ending hsettings hflags htruncate
    refine ⟨table, hanswer, hcontents, ?_, ?_, hdiscarded⟩
    · rw [hcontents, hlast.contents, List.map_append, Contents.ofChanges, List.foldl_append,
        Frame.map_change_ofChange, ← Contents.ofChanges, ofChanges_recordFrames h.sound]
    · rw [happlied, List.length_append, length_recordFrames h.sound, h.sound.size_contents,
        List.length_map]

/-- At every point of a history, a table can be compacted unless the disk fails.  That leaves
the table in memory as it was, and a log with one frame for each record. -/
theorem Reached.compacted {count : Nat} (h : Reached path session count)
    (hmade : ∀ error, (session.perform .compact).1 ≠ .error (.disk error)) :
    (session.perform .compact).1 = .ok () ∧
      Compacted path session (session.perform .compact).2 := by
  obtain ⟨log, frames, hmirrors, -⟩ := h.exists_mirrors
  have hok := hmirrors.perform_compact hmade
  exact ⟨hok, hmirrors.compacted_of_ok hok⟩

/-- A table in a file that was made for it, and a key that was stored twice: two frames are
replaced by one. -/
theorem Reached.compacted_stored_twice :
    ∃ session : Session, Reached ⟨"t"⟩ session 2 ∧ session.table.memory.count = 1 ∧
      (session.perform .compact).1 = .ok () ∧
      Compacted ⟨"t"⟩ session (session.perform .compact).2 := by
  let opened : Session := ⟨newTable, (openAt .empty ⟨"t"⟩ .creating { initialBuckets := 2 }).disk⟩
  let calls : List Call := [.store [1] (.given [2]), .store [1] (.given [3])]
  let twice : Session := opened.run calls
  have hopen : (openAt .empty ⟨"t"⟩ .creating { initialBuckets := 2 }).answer = .ok newTable := by
    cbv
  have hframes : opened.framesAfterRun calls 0 = 2 := by
    decide +kernel
  have hcompact : (twice.perform .compact).1.isOk = true := by
    decide +kernel
  have hcount : twice.table.memory.count = 1 := by
    decide +kernel
  have hshort : ∀ call ∈ calls, ∀ change ∈ call.change?, (Log.payload change).length < 2 ^ 32 := by
    decide
  have hopened : Reached ⟨"t"⟩ opened 0 := .opened .empty rfl hopen
  have htwice := hopened.run hshort
  rw [hframes] at htwice
  refine ⟨twice, htwice, hcount, htwice.compacted fun error herror => ?_⟩
  rw [herror] at hcompact
  cases hcompact

end FileTable
end KeyTable
