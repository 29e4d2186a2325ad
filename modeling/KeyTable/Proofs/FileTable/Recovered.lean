import KeyTable.Proofs.FileTable.Reopening
import KeyTable.Proofs.Log.Scanning

/-!
# What is recovered from a file, whatever it holds

A file may hold anything when a table is opened on it.  If it can be opened at all, its
bytes are accounted for, and every way to open it gives the same records.  If it was opened
for writing, nothing is left in it that could not be recovered again.

* `openAt_of_found` — all that opening does with what is found in a file: to the records,
  to the report, to the disk and to the log.
* `Recovers`, `OpenedWith.recovers` — what comes of it.
* `openAt_recovers` — that holds of every file, and no scan of it runs into a fault.
-/

namespace KeyTable
namespace FileTable

open Log (Frame ofFrames CutHeader)

variable {disk : Disk} {path : Path} {flags : OpenFlags} {settings : Settings} {table : FileTable}
  {file : Nat} {changes : List Change} {recovery : Recovery} {after : Disk}

/-! ## Opening a file that was found -/

/-- Without being emptied, the file at the path is opened as it is. -/
theorem openAt_eq_ofFile (hsettings : settings.flaw? = none) (hflags : flags.flaw? = none)
    (htruncate : flags.truncate = false) (hnamed : disk.fileNumber path = .ok file) :
    openAt disk path flags settings = ofFile disk file path flags settings := by
  unfold openAt
  rw [hsettings, hflags, Option.or_none]
  dsimp only
  rw [locateFile_of_fileNumber hnamed]
  dsimp only
  rw [if_neg (ne_true_of_eq_false htruncate)]

/-- All that opening does with what was found in a file. -/
structure OpenedWith (disk : Disk) (file : Nat) (flags : OpenFlags) (settings : Settings)
    (changes : List Change) (recovery : Recovery) (table : FileTable) (after : Disk) : Prop where
  /-- The changes are made to an empty table. -/
  memory_eq : table.memory = changes.foldl MemoryTable.apply (.ofSettings settings)
  /-- What was found is reported, and whether bytes were cut off. -/
  recovery_eq : table.recovery =
    { recovery with truncated := !flags.readOnly && recovery.discarded != 0 }
  /-- The file is repaired, unless it must not be written. -/
  disk_eq : after =
    if flags.readOnly then disk else repair disk file (disk.contents file) recovery
  /-- What is logged next is written where the file ends. -/
  log_eq : table.log =
    if flags.readOnly then none
    else some (.onFile file (.offset (after.contents file).length) settings.sync)

/-- Whatever is found in a file, it can be opened. -/
theorem openAt_of_found (hsettings : settings.flaw? = none) (hflags : flags.flaw? = none)
    (htruncate : flags.truncate = false) (hnamed : disk.fileNumber path = .ok file)
    (hfound : Log.found (disk.contents file) = .ok (changes, recovery)) :
    ∃ table, (openAt disk path flags settings).answer = .ok table ∧
      OpenedWith disk file flags settings changes recovery table
        (openAt disk path flags settings).disk := by
  obtain ⟨frames, haccounted, -⟩ := Log.accounted_of_found hfound
  have huntruncated := haccounted.untruncated
  have hrecover : recover settings (disk.contents file) =
      .ok (changes.foldl MemoryTable.apply (.ofSettings settings), recovery) := by
    rw [recover_eq, hfound]
    rfl
  rw [openAt_eq_ofFile hsettings hflags htruncate hnamed, ofFile, hrecover]
  cases hreadOnly : flags.readOnly with
  | true =>
    refine ⟨_, rfl, rfl, ?_, ?_, ?_⟩
    · rw [hreadOnly]
      show recovery = { recovery with truncated := false }
      rw [← huntruncated]
    · rw [if_pos hreadOnly]
      rfl
    · rw [if_pos hreadOnly]
  | false =>
    refine ⟨_, rfl, rfl, ?_, ?_, ?_⟩
    · rw [hreadOnly]
      rfl
    · rw [if_neg (ne_true_of_eq_false hreadOnly)]
      rfl
    · rw [if_neg (ne_true_of_eq_false hreadOnly)]
      rfl

/-- Something was found in every file that could be opened. -/
theorem exists_found_of_openAt (htruncate : flags.truncate = false)
    (hnamed : disk.fileNumber path = .ok file)
    (h : (openAt disk path flags settings).answer = .ok table) :
    ∃ changes recovery, Log.found (disk.contents file) = .ok (changes, recovery) := by
  obtain ⟨hsettings, hflags⟩ := flaw?_of_openAt h
  rw [openAt_eq_ofFile hsettings hflags htruncate hnamed, ofFile, recover_eq] at h
  cases hfound : Log.found (disk.contents file) with
  | error fault =>
    rw [hfound] at h
    cases h
  | ok found => exact ⟨found.1, found.2, rfl⟩

theorem OpenedWith.contents_eq
    (h : OpenedWith disk file flags settings changes recovery table after) :
    table.memory.contents = Contents.ofChanges changes := by
  rw [h.memory_eq, (replayed_spec settings changes).2]

/-- A table that was given up at once has written nothing. -/
theorem OpenedWith.ended_eq
    (h : OpenedWith disk file flags settings changes recovery table after) (ending : Ending) :
    Session.ended ⟨table, after⟩ ending = after := by
  have hlog := h.log_eq
  obtain ⟨hsync, hrelease⟩ : table.sync after = (table, after) ∧ table.release after = after := by
    split at hlog
    · unfold sync release
      rw [hlog]
      exact ⟨rfl, rfl⟩
    · rw [sync_eq hlog, release_eq hlog, Log.Appender.sync_onFile, Log.Appender.flush_onFile,
        ← hlog]
      exact ⟨rfl, rfl⟩
  cases ending with
  | synced => exact congrArg Prod.snd hsync
  | closed =>
    show (table.sync after).1.release (table.sync after).2 = after
    rw [hsync]
    exact hrelease
  | dropped => exact hrelease

/-! ## Recovery -/

/-- What comes of opening the file at a path without emptying it, when the file holds
these bytes. -/
structure Recovers (disk : Disk) (path : Path) (flags : OpenFlags) (bytes : Bytes)
    (table : FileTable) (after : Disk) : Prop where
  /-- Every byte is kept or discarded. -/
  measured : table.recovery.validLength + table.recovery.discarded = bytes.length
  /-- From the header up to the last byte that is kept there are intact frames. -/
  tiled : ∃ frames, Log.Tiles bytes table.recovery.validLength frames
  /-- It is their number that is reported, and their changes that make the records. -/
  applied : ∀ frames, Log.Tiles bytes table.recovery.validLength frames →
    table.recovery.applied = frames.length ∧
      table.memory.contents = Contents.ofChanges (frames.map Frame.change)
  /-- What is discarded does not begin with an intact frame. -/
  damaged : Log.decodeFrame? (bytes.drop table.recovery.validLength) = none
  /-- Nothing is kept of a header that was cut short. -/
  cut : CutHeader bytes → table.recovery.validLength = 0 ∧ table.recovery.applied = 0
  /-- Any other file opens with the header, which is kept. -/
  whole : ¬ CutHeader bytes → Log.header <+: bytes.take table.recovery.validLength
  /-- Bytes are cut off exactly if there are any to be discarded, and the file may be
  written. -/
  truncated : table.recovery.truncated = true ↔
    flags.readOnly = false ∧ 0 < table.recovery.discarded
  /-- A file that may be written holds what is kept, or a new header. -/
  repaired : flags.readOnly = false →
    after.read path = .ok (Log.mended bytes table.recovery.validLength)
  /-- For reading, nothing on the disk is changed. -/
  untouched : flags.readOnly = true → after = disk
  /-- Every other way to open the file recovers as much, and gives the same records. -/
  alike : ∀ (others : OpenFlags) (choice : Settings),
    choice.flaw? = none → others.flaw? = none → others.truncate = false →
    ∃ other, (openAt disk path others choice).answer = .ok other ∧
      other.memory.contents = table.memory.contents ∧
      other.recovery.applied = table.recovery.applied ∧
      other.recovery.validLength = table.recovery.validLength ∧
      other.recovery.discarded = table.recovery.discarded
  /-- However the table is given up at once, the disk is left as it was made by opening. -/
  ended : ∀ ending, Session.ended ⟨table, after⟩ ending = after
  /-- After the file was opened for writing, to open it again gives the same records from
  as many frames, and there is nothing left to be discarded. -/
  reopened : flags.readOnly = false → ∀ (others : OpenFlags) (choice : Settings),
    choice.flaw? = none → others.flaw? = none → others.truncate = false →
    ∃ other, (openAt after path others choice).answer = .ok other ∧
      other.memory.contents = table.memory.contents ∧
      other.recovery.applied = table.recovery.applied ∧
      other.recovery.discarded = 0 ∧ other.recovery.truncated = false

/-- What is left of the disk when a file was opened for writing. -/
theorem OpenedWith.after_spec {frames : List Frame}
    (h : OpenedWith disk file flags settings changes recovery table after) (hdisk : disk.Sound)
    (hnamed : disk.fileNumber path = .ok file) (hwritable : flags.readOnly = false)
    (haccounted : Log.Accounted (disk.contents file) frames recovery) :
    after.fileNumber path = .ok file ∧ after.contents file = ofFrames frames := by
  have hafter := h.disk_eq
  rw [if_neg (ne_true_of_eq_false hwritable)] at hafter
  rw [hafter]
  exact ⟨Disk.fileNumber_congr (nodes_repair ..) hnamed,
    contents_repair (hdisk.lt_of_fileNumber hnamed) (opensWith_of_accounted haccounted)⟩

/-- The file that was found is recovered. -/
theorem OpenedWith.recovers
    (h : OpenedWith disk file flags settings changes recovery table after) (hdisk : disk.Sound)
    (hnamed : disk.fileNumber path = .ok file)
    (hfound : Log.found (disk.contents file) = .ok (changes, recovery)) :
    Recovers disk path flags (disk.contents file) table after := by
  obtain ⟨frames, haccounted, rfl⟩ := Log.accounted_of_found hfound
  have hvalid : table.recovery.validLength = recovery.validLength := by rw [h.recovery_eq]
  have happlied : table.recovery.applied = frames.length := by
    rw [h.recovery_eq, haccounted.applied]
  constructor
  case measured =>
    rw [h.recovery_eq]
    exact haccounted.measured
  case tiled =>
    rw [hvalid]
    exact ⟨frames, haccounted.tiles⟩
  case applied =>
    intro others hothers
    rw [hvalid] at hothers
    have hchanges := haccounted.tiles.changes_unique hothers
    have hcount := congrArg List.length hchanges
    rw [List.length_map, List.length_map] at hcount
    rw [hchanges, hcount]
    exact ⟨happlied, h.contents_eq⟩
  case damaged =>
    rw [hvalid]
    exact haccounted.damaged
  case cut =>
    intro hcut
    rw [hvalid, happlied, haccounted.eq_nil_of_cut hcut]
    exact ⟨haccounted.cut hcut, rfl⟩
  case whole =>
    rw [hvalid]
    exact haccounted.whole
  case truncated =>
    rw [h.recovery_eq]
    simp [Nat.pos_iff_ne_zero]
  case repaired =>
    intro hwritable
    obtain ⟨hleads, hholds⟩ := h.after_spec hdisk hnamed hwritable haccounted
    rw [hvalid]
    exact Disk.read_eq_ok_iff.mpr ⟨file, hleads, hholds.trans haccounted.mended_eq.symm⟩
  case untouched =>
    intro hreadOnly
    rw [h.disk_eq, if_pos hreadOnly]
  case alike =>
    intro others choice hchoice hothers hkeep
    obtain ⟨other, hopen, hother⟩ := openAt_of_found hchoice hothers hkeep hnamed hfound
    refine ⟨other, hopen, hother.contents_eq.trans h.contents_eq.symm, ?_, ?_, ?_⟩ <;>
      rw [hother.recovery_eq, h.recovery_eq]
  case ended => exact h.ended_eq
  case reopened =>
    intro hwritable others choice hchoice hothers hkeep
    obtain ⟨hleads, hholds⟩ := h.after_spec hdisk hnamed hwritable haccounted
    -- the file is a whole log now, and the same frames are found in it
    have hnothing : Log.decodeFrame? [] = none := rfl
    have hagain := Log.found_ofFrames_append haccounted.tiles.intact hnothing
    rw [List.append_nil, ← hholds] at hagain
    obtain ⟨other, hopen, hother⟩ := openAt_of_found hchoice hothers hkeep hleads hagain
    refine ⟨other, hopen, hother.contents_eq.trans h.contents_eq.symm, ?_, ?_, ?_⟩
    · rw [hother.recovery_eq, happlied]
    · rw [hother.recovery_eq]
      rfl
    · rw [hother.recovery_eq]
      exact Bool.and_false _

/-- Whatever a file holds, scanning it comes to its end without a fault; and however it is
opened without being emptied, it is recovered if it can be opened at all. -/
theorem openAt_recovers (bytes : Bytes) :
    Log.scan bytes = .ok (Log.replay bytes) ∧
      ∀ (disk : Disk) (path : Path) (flags : OpenFlags) (settings : Settings) (table : FileTable),
        disk.Reachable → disk.read path = .ok bytes → flags.truncate = false →
        (openAt disk path flags settings).answer = .ok table →
        Recovers disk path flags bytes table (openAt disk path flags settings).disk := by
  refine ⟨Log.scan_eq bytes, fun disk path flags settings table hdisk hread htruncate hopen => ?_⟩
  obtain ⟨file, hnamed, rfl⟩ := Disk.read_eq_ok_iff.mp hread
  obtain ⟨hsettings, hflags⟩ := flaw?_of_openAt hopen
  obtain ⟨changes, recovery, hfound⟩ := exists_found_of_openAt htruncate hnamed hopen
  obtain ⟨same, hsame, hopened⟩ := openAt_of_found hsettings hflags htruncate hnamed hfound
  rw [hopen] at hsame
  cases hsame
  exact hopened.recovers hdisk.sound hnamed hfound

/-- A frame that is followed by a damaged one is recovered, and what follows it is cut off. -/
theorem openAt_recovers_damaged :
    let bytes := ofFrames [Frame.ofChange (.store [1] [2])] ++ [0xff]
    ∃ (disk : Disk) (table : FileTable),
      (openAt disk ⟨"t"⟩ .readWrite {}).answer = .ok table ∧
      table.recovery = { applied := 1, validLength := 36, discarded := 1, truncated := true } ∧
      Recovers disk ⟨"t"⟩ .readWrite bytes table (openAt disk ⟨"t"⟩ .readWrite {}).disk := by
  intro bytes
  let made : Disk := ⟨[(["t"], .file 0)], #[.empty 0o644]⟩
  let disk := made.update 0 (·.withBytes bytes)
  have hmade : Disk.openOrMake .empty ⟨"t"⟩ 0o644 = .ok (0, made) := by cbv
  have hnamed : disk.fileNumber ⟨"t"⟩ = .ok 0 := by cbv
  have hcontents : disk.contents 0 = bytes := rfl
  have hintact : ∀ frame ∈ [Frame.ofChange (.store [1] [2])], frame.Intact := by
    intro frame hframe
    rw [List.mem_singleton.mp hframe]
    exact Log.Frame.intact_ofChange (by decide)
  have hdamaged : Log.decodeFrame? [0xff] = none := rfl
  have hfound : Log.found (disk.contents 0) = _ := Log.found_ofFrames_append hintact hdamaged
  have hsettings : Settings.flaw? {} = none := rfl
  have hflags : OpenFlags.readWrite.flaw? = none := rfl
  obtain ⟨table, hopen, hopened⟩ := openAt_of_found hsettings hflags rfl hnamed hfound
  refine ⟨disk, table, hopen, hopened.recovery_eq, ?_⟩
  exact (openAt_recovers bytes).2 disk ⟨"t"⟩ .readWrite {} table
    (.update 0 _ (.openOrMake .empty hmade)) (Disk.read_eq_ok_iff.mpr ⟨0, hnamed, hcontents⟩) rfl
    hopen

end FileTable
end KeyTable
