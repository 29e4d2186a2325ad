import KeyTable.Proofs.Disk.Tree
import KeyTable.Proofs.FileTable.Memory
import KeyTable.Proofs.Log.Accounting
import KeyTable.Proofs.Log.Appender

/-!
# Opening and recovery

When a table is opened, its log is recovered to the frames that the file opens with.
If the table is writable, these are then all that the file holds, behind a whole
header, and the table *mirrors* its log from there on (`Mirrors`,
`exists_mirrors_of_openAt`).

* `recover_ofFrames` — a whole log is recovered to all of its frames.
* `recover_take_ofFrames` — a log that was cut short is recovered to those that lie
  wholly in front of the cut.
* `openAt_of_recover` — what can be recovered can be opened, to the same records.
-/

namespace KeyTable
namespace FileTable

open Log (Frame ofFrames CutHeader)

/-! ## Recovery -/

/-- The table that changes are replayed into is sound, and holds what they make. -/
theorem replayed_spec (settings : Settings) (changes : List Change) :
    (changes.foldl MemoryTable.apply (.ofSettings settings)).Sound ∧
      (changes.foldl MemoryTable.apply (.ofSettings settings)).contents =
        Contents.ofChanges changes := by
  have hnew : (MemoryTable.ofSettings settings).Sound := MemoryTable.sound_withBuckets _
  have hempty : (MemoryTable.ofSettings settings).contents = ∅ := MemoryTable.contents_withBuckets _
  have hreplay := hnew.foldl_apply changes
  rw [hempty] at hreplay
  exact hreplay

/-- Recovery makes the changes that are found to an empty table. -/
theorem recover_eq (settings : Settings) (bytes : Bytes) :
    recover settings bytes = (Log.found bytes).map fun found =>
      (found.1.foldl MemoryTable.apply (.ofSettings settings), found.2) := by
  unfold recover Log.found
  by_cases hcut : CutHeader bytes
  · rw [if_pos ((Log.isPartialHeader_iff bytes).mpr hcut), if_pos hcut]
    rfl
  · rw [if_neg (mt (Log.isPartialHeader_iff bytes).mp hcut), if_neg hcut]

/-- A whole log is recovered to all of its frames. -/
theorem recover_ofFrames {frames : List Frame} (h : ∀ frame ∈ frames, frame.Intact)
    (settings : Settings) :
    recover settings (ofFrames frames) =
      .ok ((frames.map Frame.change).foldl MemoryTable.apply (.ofSettings settings),
        { applied := frames.length
          validLength := (ofFrames frames).length
          discarded := 0 }) := by
  have hnothing : Log.decodeFrame? [] = none := rfl
  have hfound := Log.found_ofFrames_append h hnothing
  rw [List.append_nil] at hfound
  rw [recover_eq, hfound]
  rfl

/-- A log that was cut short is recovered to the frames that lie wholly in front of the
cut, even if the header does not. -/
theorem recover_take_ofFrames {frames : List Frame} (h : ∀ frame ∈ frames, frame.Intact)
    (settings : Settings) (cut : Nat) :
    ∃ memory recovery, recover settings ((ofFrames frames).take cut) = .ok (memory, recovery) ∧
      memory.contents = Contents.ofChanges
        ((Log.wholeWithin (cut - Log.headerSize) frames).map Frame.change) ∧
      recovery.applied = (Log.wholeWithin (cut - Log.headerSize) frames).length := by
  by_cases hcut : cut < Log.headerSize
  · have hheader := Log.isPartialHeader_take hcut (Log.joined frames)
    rw [Nat.sub_eq_zero_of_le (Nat.le_of_lt hcut), Log.wholeWithin_zero h, recover, ofFrames,
      if_pos hheader]
    exact ⟨_, _, rfl, (replayed_spec settings []).2, rfl⟩
  · have hle : Log.headerSize ≤ cut := Nat.le_of_not_lt hcut
    obtain ⟨recovery, hreplay, happlied⟩ := Log.replay_take_ofFrames h hle
    have hheader : ¬ Log.isPartialHeader ((ofFrames frames).take cut) = true := by
      rw [ofFrames, List.take_append, List.take_of_length_le (by rw [Log.length_header]; exact hle),
        Log.isPartialHeader_header_append]
      exact Bool.false_ne_true
    rw [recover, if_neg hheader, hreplay]
    exact ⟨_, recovery, rfl, (replayed_spec settings _).2, happlied⟩

/-- Are these frames what a file opens with?  What follows them is damaged.  If the file
has no more than the beginning of a header, there are none. -/
def OpensWith (bytes : Bytes) (frames : List Frame) (recovery : Recovery) : Prop :=
  if Log.isPartialHeader bytes then frames = []
  else ∃ damaged, bytes = ofFrames frames ++ damaged ∧
    recovery.validLength = (ofFrames frames).length ∧ recovery.discarded = damaged.length

theorem opensWith_of_accounted {bytes : Bytes} {frames : List Frame} {recovery : Recovery}
    (h : Log.Accounted bytes frames recovery) : OpensWith bytes frames recovery := by
  have hpartial := Log.isPartialHeader_iff bytes
  unfold OpensWith
  by_cases hcut : CutHeader bytes
  · rw [if_pos (hpartial.mpr hcut)]
    exact h.eq_nil_of_cut hcut
  · have hkept := h.mended_eq
    rw [Log.mended, if_neg hcut] at hkept
    have hmeasured := h.measured
    have hlength := congrArg List.length hkept
    rw [List.length_take] at hlength
    rw [if_neg (mt hpartial.mp hcut)]
    refine ⟨bytes.drop recovery.validLength, ?_, ?_, ?_⟩
    · rw [← hkept, List.take_append_drop]
    · omega
    · rw [List.length_drop]
      omega

/-- Whatever is recovered, it is the frames that the file opens with. -/
theorem exists_frames_of_recover {settings : Settings} {bytes : Bytes} {memory : MemoryTable}
    {recovery : Recovery} (h : recover settings bytes = .ok (memory, recovery)) :
    ∃ frames : List Frame, (∀ frame ∈ frames, frame.Intact) ∧
      memory.contents = Contents.ofChanges (frames.map Frame.change) ∧
      recovery.applied = frames.length ∧ OpensWith bytes frames recovery := by
  rw [recover_eq] at h
  cases hfound : Log.found bytes with
  | error fault =>
    rw [hfound] at h
    cases h
  | ok found =>
    rw [hfound] at h
    cases h
    obtain ⟨frames, haccounted, hchanges⟩ := Log.accounted_of_found hfound
    refine ⟨frames, haccounted.tiles.intact, ?_, haccounted.applied,
      opensWith_of_accounted haccounted⟩
    rw [← hchanges]
    exact (replayed_spec settings _).2

/-- A log that was repaired is a whole one, of the frames that were recovered. -/
theorem contents_repair {disk : Disk} {file : Nat} {recovery : Recovery} {frames : List Frame}
    (hfile : file < disk.files.size) (h : OpensWith (disk.contents file) frames recovery) :
    (repair disk file (disk.contents file) recovery).contents file = ofFrames frames := by
  unfold OpensWith at h
  unfold repair
  split at h
  · next hheader =>
    subst h
    have hresized : file < (disk.resize file 0).files.size := by
      rw [Disk.size_files_resize]
      exact hfile
    have hwritten := Disk.contents_writeAt_length hresized Log.header
    rw [Disk.contents_resize_zero hfile, List.length_nil, List.nil_append] at hwritten
    rw [if_pos hheader, hwritten, ofFrames, Log.joined_nil, List.append_nil]
  · next hheader =>
    obtain ⟨damaged, hbytes, hvalid, hdiscarded⟩ := h
    rw [if_neg hheader]
    split
    · next hnone =>
      have hdamaged : damaged = [] := List.eq_nil_of_length_eq_zero (hdiscarded.symm.trans hnone)
      rw [hbytes, hdamaged, List.append_nil]
    · have hle : (ofFrames frames).length ≤ (disk.contents file).length := by
        rw [hbytes, List.length_append]
        exact Nat.le_add_right _ _
      rw [hvalid, Disk.contents_resize hfile, Bytes.resize_of_le hle, hbytes, List.take_left]

theorem nodes_repair (disk : Disk) (file : Nat) (bytes : Bytes) (recovery : Recovery) :
    (repair disk file bytes recovery).nodes = disk.nodes := by
  unfold repair
  split
  · rw [Disk.nodes_writeAt, Disk.nodes_resize]
  · split
    · rfl
    · exact Disk.nodes_resize ..

theorem size_files_repair (disk : Disk) (file : Nat) (bytes : Bytes) (recovery : Recovery) :
    (repair disk file bytes recovery).files.size = disk.files.size := by
  unfold repair
  split
  · rw [Disk.size_files_writeAt, Disk.size_files_resize]
  · split
    · rfl
    · exact Disk.size_files_resize ..

/-! ## Opening -/

/-- A table that logs every change to the file at a path, and holds what the log
makes. -/
structure Mirrors (path : Path) (table : FileTable) (disk : Disk) (log : Log.Appender)
    (frames : List Frame) : Prop where
  /-- The table has this log. -/
  hasLog : table.log = some log
  /-- The table knows the path. -/
  hasPath : table.path = some path
  /-- The table can be changed. -/
  writable : table.readOnly = false
  /-- The path leads to the file of the log. -/
  named : disk.fileNumber path = .ok log.file
  /-- Every file in the tree was made. -/
  made : disk.Sound
  /-- The log is written where its file ends. -/
  fits : log.Fits disk
  /-- What was logged are these frames, whether they are in the file or in the buffer. -/
  logged : log.logged disk = ofFrames frames
  /-- Each of them is intact. -/
  intact : ∀ frame ∈ frames, frame.Intact
  /-- The records are laid out as they should be. -/
  sound : table.memory.Sound
  /-- The records are what the frames make. -/
  contents : table.memory.contents = Contents.ofChanges (frames.map Frame.change)

variable {disk : Disk} {path : Path} {flags : OpenFlags} {settings : Settings} {table : FileTable}
  {file : Nat}

theorem locateFile_spec (hdisk : disk.Sound) {located : Disk}
    (h : locateFile disk path flags = .ok (file, located)) :
    located.Sound ∧ located.fileNumber path = .ok file := by
  unfold locateFile at h
  split at h
  · exact ⟨hdisk.openOrMake h, Disk.fileNumber_of_openOrMake h⟩
  · cases hnumber : disk.fileNumber path with
    | error error =>
      rw [hnumber] at h
      cases h
    | ok number =>
      rw [hnumber] at h
      cases h
      exact ⟨hdisk, hnumber⟩

theorem locateFile_of_fileNumber (h : disk.fileNumber path = .ok file) (flags : OpenFlags) :
    locateFile disk path flags = .ok (file, disk) := by
  unfold locateFile
  split
  · exact Disk.openOrMake_of_fileNumber h flags.mode
  · rw [h]
    rfl

/-- A table that was opened for writing mirrors its log, all of which is in the file. -/
theorem exists_mirrors_of_ofFile (hdisk : disk.Sound) (hnamed : disk.fileNumber path = .ok file)
    (hwritable : flags.readOnly = false)
    (h : (ofFile disk file path flags settings).answer = .ok table) :
    ∃ log frames, Mirrors path table (ofFile disk file path flags settings).disk log frames ∧
      log = .onFile file log.place settings.sync ∧ table.policy = settings.sync ∧
      table.recovery.applied = frames.length := by
  have hfile := hdisk.lt_of_fileNumber hnamed
  unfold ofFile at h ⊢
  dsimp only at h ⊢
  cases hrecover : recover settings (disk.contents file) with
  | error fault =>
    rw [hrecover] at h
    cases h
  | ok found =>
    obtain ⟨memory, recovery⟩ := found
    rw [hrecover] at h
    simp only [hwritable, Bool.false_eq_true, if_false] at h ⊢
    cases h
    obtain ⟨frames, hintact, hcontents, happlied, hopens⟩ := exists_frames_of_recover hrecover
    have hnodes := nodes_repair disk file (disk.contents file) recovery
    have hsize := size_files_repair disk file (disk.contents file) recovery
    refine ⟨_, frames, ⟨rfl, rfl, rfl, Disk.fileNumber_congr hnodes hnamed,
      hdisk.congr hnodes hsize, ⟨?_, .inr rfl⟩, ?_, hintact, sound_of_recover hrecover, hcontents⟩,
      rfl, rfl, happlied⟩
    · rw [hsize]
      exact hfile
    · exact (List.append_nil _).trans (contents_repair hfile hopens)

theorem sync_ne_of_flaw (h : settings.flaw? = none) : settings.sync ≠ .every 0 := by
  intro hsync
  unfold Settings.flaw? at h
  split at h
  · cases h
  · cases h

/-- The disk of a file that is to be opened: the file is emptied if the flags ask for
it. -/
def cleared (disk : Disk) (file : Nat) (flags : OpenFlags) : Disk :=
  if flags.truncate then disk.resize file 0 else disk

theorem nodes_cleared (disk : Disk) (file : Nat) (flags : OpenFlags) :
    (cleared disk file flags).nodes = disk.nodes := by
  unfold cleared
  split <;> rfl

theorem size_files_cleared (disk : Disk) (file : Nat) (flags : OpenFlags) :
    (cleared disk file flags).files.size = disk.files.size := by
  unfold cleared
  split
  · exact Disk.size_files_resize ..
  · rfl

theorem contents_cleared (h : file < disk.files.size) (flags : OpenFlags) :
    (cleared disk file flags).contents file =
      if flags.truncate then [] else disk.contents file := by
  unfold cleared
  split
  · exact Disk.contents_resize_zero h
  · rfl

/-- A table that could be opened was opened on a file that was found or made, and emptied if
the flags ask for it. -/
theorem exists_located_of_openAt (h : (openAt disk path flags settings).answer = .ok table) :
    settings.flaw? = none ∧ flags.flaw? = none ∧
      ∃ file located, locateFile disk path flags = .ok (file, located) ∧
        openAt disk path flags settings =
          ofFile (cleared located file flags) file path flags settings := by
  unfold openAt at h ⊢
  cases hflaw : settings.flaw?.or flags.flaw? with
  | some flaw =>
    rw [hflaw] at h
    cases h
  | none =>
    obtain ⟨hsettings, hflags⟩ := Option.or_eq_none_iff.mp hflaw
    rw [hflaw] at h
    cases hlocate : locateFile disk path flags with
    | error error =>
      rw [hlocate] at h
      cases h
    | ok found => exact ⟨hsettings, hflags, found.1, found.2, rfl, rfl⟩

/-- A table refuses changes exactly if the flags say so. -/
theorem readOnly_of_openAt (h : (openAt disk path flags settings).answer = .ok table) :
    table.readOnly = flags.readOnly := by
  obtain ⟨-, -, file, located, -, hopen⟩ := exists_located_of_openAt h
  rw [hopen, ofFile] at h
  dsimp only at h
  split at h
  · cases h
  · cases hreadOnly : flags.readOnly with
    | true => rw [if_pos hreadOnly] at h; cases h; rfl
    | false => rw [if_neg (ne_true_of_eq_false hreadOnly)] at h; cases h; rfl

theorem exists_mirrors_of_openAt (hdisk : disk.Sound) (hwritable : flags.readOnly = false)
    (h : (openAt disk path flags settings).answer = .ok table) :
    ∃ log frames, Mirrors path table (openAt disk path flags settings).disk log frames ∧
      log = .onFile log.file log.place settings.sync ∧ table.policy = settings.sync ∧
      settings.sync ≠ .every 0 ∧ table.recovery.applied = frames.length := by
  obtain ⟨hsettings, -, file, located, hlocate, hopen⟩ := exists_located_of_openAt h
  obtain ⟨hlocated, hnamed⟩ := locateFile_spec hdisk hlocate
  have hsound : (cleared located file flags).Sound :=
    hlocated.congr (nodes_cleared ..) (size_files_cleared ..)
  have hleads := Disk.fileNumber_congr (nodes_cleared located file flags) hnamed
  rw [hopen] at h ⊢
  obtain ⟨log, frames, hmirrors, hlog, hpolicy, happlied⟩ :=
    exists_mirrors_of_ofFile hsound hleads hwritable h
  have hfile : log.file = file := by rw [hlog]; rfl
  have hsync := sync_ne_of_flaw hsettings
  exact ⟨log, frames, hmirrors, by rw [hfile]; exact hlog, hpolicy, hsync, happlied⟩

/-- What can be recovered can be opened, for reading or for writing, and the records are
those that were recovered. -/
theorem openAt_of_recover (hdisk : disk.Sound) (hsettings : settings.flaw? = none)
    (hflags : flags.flaw? = none) (hnamed : disk.fileNumber path = .ok file) {memory : MemoryTable}
    {recovery : Recovery}
    (hrecover : recover settings (if flags.truncate then [] else disk.contents file) =
      .ok (memory, recovery)) :
    ∃ table, (openAt disk path flags settings).answer = .ok table ∧ table.memory = memory ∧
      table.recovery.applied = recovery.applied ∧
      table.recovery.discarded = recovery.discarded := by
  rw [← contents_cleared (hdisk.lt_of_fileNumber hnamed)] at hrecover
  have hofFile : ∃ table, (ofFile (cleared disk file flags) file path flags settings).answer =
      .ok table ∧ table.memory = memory ∧ table.recovery.applied = recovery.applied ∧
      table.recovery.discarded = recovery.discarded := by
    unfold ofFile
    dsimp only
    rw [hrecover]
    dsimp only
    split
    · exact ⟨_, rfl, rfl, rfl, rfl⟩
    · exact ⟨_, rfl, rfl, rfl, rfl⟩
  unfold openAt
  rw [hsettings, hflags, Option.or_none]
  dsimp only
  rw [locateFile_of_fileNumber hnamed]
  exact hofFile

end FileTable
end KeyTable
