import KeyTable.Proofs.FileTable.Recovery

/-!
# What compaction leaves

Compaction fails only where the new log cannot be made; then the old log is still
there, with all that was in its buffer written.  Otherwise the path leads to a new
file afterwards, which holds a frame for each key (`compact_cases`), and the table
mirrors that log (`Mirrors.compact`).
-/

namespace KeyTable
namespace FileTable

open Log (Frame ofFrames)

variable {path : Path} {table : FileTable} {disk : Disk} {log : Log.Appender}
  {frames : List Frame}

/-! ## Syncing -/

theorem sync_eq (h : table.log = some log) (disk : Disk) :
    table.sync disk = ({ table with log := some (log.sync disk).1 }, (log.sync disk).2) := by
  unfold sync
  rw [h]

/-- Whatever an appender does that logs frames and changes the table to match, the table
mirrors the log afterwards. -/
theorem Mirrors.advance (h : Mirrors path table disk log frames) (more : List Frame)
    {after : Log.Appender × Disk} {memory : MemoryTable}
    (hadvance : Log.Appender.Advances (log, disk) (Log.joined more) after)
    (hmore : ∀ frame ∈ more, frame.Intact) (hsound : memory.Sound)
    (hcontents : memory.contents =
      (more.map Frame.change).foldl Contents.apply table.memory.contents) :
    Mirrors path { table with memory, log := some after.1 } after.2 after.1 (frames ++ more) where
  hasLog := rfl
  hasPath := h.hasPath
  writable := h.writable
  named := by
    rw [hadvance.file]
    exact Disk.fileNumber_congr hadvance.nodes h.named
  made := h.made.congr hadvance.nodes hadvance.size
  fits := hadvance.fits
  logged := by rw [hadvance.logged, h.logged, Log.ofFrames_append]
  intact := by
    intro frame hframe
    rcases List.mem_append.mp hframe with hold | hnew
    · exact h.intact frame hold
    · exact hmore frame hnew
  sound := hsound
  contents := by
    rw [hcontents, h.contents, List.map_append, Contents.ofChanges, Contents.ofChanges,
      List.foldl_append]

theorem Mirrors.sync (h : Mirrors path table disk log frames) :
    Mirrors path (table.sync disk).1 (table.sync disk).2 (log.sync disk).1 frames := by
  have hsynced := h.advance [] (Log.Appender.advances_sync h.fits)
    (fun frame hframe => absurd hframe List.not_mem_nil) h.sound rfl
  rw [List.append_nil] at hsynced
  rw [sync_eq h.hasLog]
  exact hsynced

/-! ## Replacing the log -/

/-- The log can be replaced by a new one, or else the new one could not be made and
nothing has changed. -/
theorem replaceLog_cases (hdisk : disk.Sound) {old : Nat} (hnamed : disk.fileNumber path = .ok old)
    (bytes : Bytes) :
    (∃ error, replaceLog disk path bytes = (.error error, disk)) ∨
      ∃ file after, replaceLog disk path bytes = (.ok file, after) ∧ after.Sound ∧
        after.fileNumber path = .ok file ∧ after.contents file = bytes := by
  unfold replaceLog
  dsimp only
  cases hopen : disk.openEmpty (path.extended scratchSuffix) with
  | error error => exact .inl ⟨error, rfl⟩
  | ok found =>
    obtain ⟨file, cleared⟩ := found
    -- the scratch path leads to the new file, and the old path still to the old one
    obtain ⟨hsound, hscratch, hempty, hothers⟩ := Disk.openEmpty_spec hdisk hopen
    have hwritten := Disk.contents_append (hsound.lt_of_fileNumber hscratch) bytes
    rw [hempty, List.nil_append] at hwritten
    have hnodes := Disk.nodes_append cleared file bytes
    obtain ⟨after, hrename, hfiles, hleads⟩ :=
      Disk.exists_rename (Disk.fileNumber_congr hnodes hscratch)
        (Disk.fileNumber_congr hnodes (hothers path old hnamed))
    have hfull : (cleared.append file bytes).Sound :=
      hsound.congr hnodes (Disk.size_files_append cleared file bytes)
    refine .inr ⟨file, after, ?_, hfull.rename hrename, hleads, ?_⟩
    · dsimp only
      rw [hrename]
    · rw [Disk.contents, hfiles]
      exact hwritten

/-- Behind a log that was replaced, nothing is left at the scratch path. -/
theorem find_scratch_of_replaceLog (hdisk : disk.Sound) {old file : Nat} {bytes : Bytes}
    {after : Disk} (hnamed : disk.fileNumber path = .ok old)
    (h : replaceLog disk path bytes = (.ok file, after)) :
    after.find (path.extended scratchSuffix) = .ok none := by
  unfold replaceLog at h
  dsimp only at h
  cases hopen : disk.openEmpty (path.extended scratchSuffix) with
  | error error =>
    rw [hopen] at h
    cases h
  | ok found =>
    obtain ⟨scratch, cleared⟩ := found
    rw [hopen] at h
    dsimp only at h
    obtain ⟨-, hscratch, -, hothers⟩ := Disk.openEmpty_spec hdisk hopen
    have hnodes := Disk.nodes_append cleared scratch bytes
    cases hrename : (cleared.append scratch bytes).rename (path.extended scratchSuffix) path with
    | error error =>
      rw [hrename] at h
      cases h
    | ok renamed =>
      rw [hrename] at h
      cases h
      refine Disk.find_of_rename (Disk.fileNumber_congr hnodes hscratch)
        (Disk.fileNumber_congr hnodes (hothers path old hnamed)) ?_ hrename
      -- the last name of the scratch path is the longer one
      obtain ⟨folder, name, htarget, hslash, -⟩ := Disk.fileNumber_eq_ok_iff.mp hnamed
      have hlast := (Disk.name_of_target htarget).1
      rw [Path.getLast?_names_extended hslash hlast (by decide), hlast]
      simp [scratchSuffix]

/-! ## Compaction -/

/-- The frames of a log that holds each record once. -/
def recordFrames (memory : MemoryTable) : List Frame :=
  (Contents.stores memory.entries).map Frame.ofChange

theorem compactLog_eq (memory : MemoryTable) :
    compactLog memory = ofFrames (recordFrames memory) := by
  rw [compactLog, ofFrames, recordFrames, Contents.stores, Log.joined, List.map_map,
    List.flatMap_map]
  rfl

theorem change_recordFrames (memory : MemoryTable) :
    (recordFrames memory).map Frame.change = Contents.stores memory.entries :=
  Frame.map_change_ofChange _

/-- There are as many of them as keys. -/
theorem length_recordFrames {memory : MemoryTable} (h : memory.Sound) :
    (recordFrames memory).length = memory.contents.size := by
  rw [recordFrames, Contents.stores, List.length_map, List.length_map, MemoryTable.contents,
    Contents.size_ofEntries h.nodup_entries]

/-- They make up the records. -/
theorem ofChanges_recordFrames {memory : MemoryTable} (h : memory.Sound) :
    Contents.ofChanges ((recordFrames memory).map Frame.change) = memory.contents := by
  rw [change_recordFrames]
  exact Contents.foldl_apply_stores h.nodup_entries

/-- The changes in the new log were all in the old one. -/
theorem Mirrors.stores_subset (h : Mirrors path table disk log frames) :
    Contents.stores table.memory.entries ⊆ frames.map Frame.change := by
  intro change hchange
  obtain ⟨entry, hentry, rfl⟩ := List.mem_map.mp hchange
  refine Contents.store_mem_of_lookup ?_
  rw [← h.contents]
  exact (Contents.lookup_ofEntries_eq_some_iff h.sound.nodup_entries).mpr hentry

/-- A record came from a frame of the log, so it fits into a frame again. -/
theorem Mirrors.intact_recordFrames (h : Mirrors path table disk log frames) :
    ∀ frame ∈ recordFrames table.memory, frame.Intact := by
  intro frame hframe
  obtain ⟨change, hchange, rfl⟩ := List.mem_map.mp hframe
  obtain ⟨source, hsource, rfl⟩ := List.mem_map.mp (h.stores_subset hchange)
  exact Log.Frame.intact_ofChange (Log.length_payload_lt_of_decodeFrame? (h.intact source hsource))

/-- When compaction succeeds, the log was replaced, and the table goes on behind its end. -/
theorem Mirrors.exists_replaceLog (h : Mirrors path table disk log frames)
    (hok : (table.compact disk).answer = .ok ()) :
    ∃ file, replaceLog (log.sync disk).2 path (compactLog table.memory) =
        (.ok file, (table.compact disk).disk) ∧
      (table.compact disk).table.log = some (.onFile file .tail table.policy) := by
  unfold FileTable.compact at hok ⊢
  simp only [h.writable, h.hasPath, sync_eq h.hasLog, Bool.false_eq_true, if_false] at hok ⊢
  rcases hreplace : replaceLog (log.sync disk).2 path (compactLog table.memory) with
    ⟨error | file, after⟩
  · rw [hreplace] at hok
    cases hok
  · exact ⟨file, rfl, rfl⟩

/-- Compaction leaves a table that mirrors its log.  Either the old log is still there, or
there is a new one with one frame for each key. -/
theorem Mirrors.compact (h : Mirrors path table disk log frames) :
    (∃ error, (table.compact disk).answer = .error (.disk error) ∧
        Mirrors path (table.compact disk).table (table.compact disk).disk (log.sync disk).1
          frames) ∨
      ∃ fresh, (table.compact disk).answer = .ok () ∧
        Mirrors path (table.compact disk).table (table.compact disk).disk fresh
          (recordFrames table.memory) := by
  have hsynced := h.sync
  simp only [sync_eq h.hasLog, h.writable, h.hasPath] at hsynced
  unfold FileTable.compact
  simp only [h.writable, h.hasPath, sync_eq h.hasLog, Bool.false_eq_true, if_false]
  rcases replaceLog_cases hsynced.made hsynced.named (compactLog table.memory) with
    ⟨error, hfailed⟩ | ⟨file, after, hreplaced, hsound, hleads, hbytes⟩
  · rw [hfailed]
    exact .inl ⟨error, rfl, hsynced⟩
  · rw [hreplaced]
    refine .inr ⟨_, rfl, ⟨rfl, rfl, rfl, hleads, hsound,
      ⟨hsound.lt_of_fileNumber hleads, .inl rfl⟩, ?_, h.intact_recordFrames, h.sound,
      (ofChanges_recordFrames h.sound).symm⟩⟩
    exact (List.append_nil _).trans (hbytes.trans (compactLog_eq table.memory))

end FileTable
end KeyTable
