import KeyTable.Proofs.Disk.Modes
import KeyTable.Proofs.FileTable.Crash
import KeyTable.Proofs.FileTable.Reopening

/-!
# The permission bits of a log

The flags with which a table is opened say which permission bits its file gets if it has to
be made.  As long as this file is the log, it keeps them: no call, and no way of giving the
table up and opening it again, makes another.

Compaction does.  The new log is a file of its own, made as any file is for which nobody
chooses the bits, and these are not those of the old log.

* `sameModes_perform`, `sameModes_openAt` — what leaves all permission bits as they are.
* `mode_replaceLog` — the bits of a new log come from what is at the scratch path.
* `Reached.keeps_bits` — so the bits of the log, at every point of every history.
* `bits_widened` — a log that only its owner may read, and that all may read afterwards.
-/

namespace KeyTable

namespace Log
namespace Appender

open Disk (SameModes)

/-! ## Appending -/

theorem sameModes_write (appender : Appender) (disk : Disk) (bytes : Bytes) :
    SameModes disk (appender.write disk bytes).2 := by
  unfold write
  split
  · exact Disk.sameModes_writeAt ..
  · exact Disk.sameModes_append ..

theorem sameModes_sync (appender : Appender) (disk : Disk) :
    SameModes disk (appender.sync disk).2 :=
  appender.sameModes_write disk appender.pending

theorem sameModes_buffer (appender : Appender) (disk : Disk) (bytes : Bytes) :
    SameModes disk (appender.buffer disk bytes).2 := by
  have hready : SameModes disk (appender.withRoom disk bytes).2 := by
    unfold withRoom
    split
    · exact appender.sameModes_write disk appender.pending
    · exact SameModes.refl disk
  rw [buffer_eq]
  dsimp only
  split
  · exact hready.trans (sameModes_write ..)
  · exact hready

theorem sameModes_append (appender : Appender) (disk : Disk) (frame : Bytes) :
    SameModes disk (appender.append disk frame).2 := by
  have hbuffer := appender.sameModes_buffer disk frame
  unfold append
  dsimp only
  split
  · exact hbuffer.trans (sameModes_sync ..)
  · exact hbuffer

end Appender
end Log

namespace FileTable

open Disk (SameModes)

variable {path : Path} {disk : Disk} {session : Session}

/-! ## Calls -/

theorem sameModes_sync (table : FileTable) (disk : Disk) : SameModes disk (table.sync disk).2 := by
  unfold sync
  split
  · exact SameModes.refl disk
  · exact Log.Appender.sameModes_sync ..

theorem sameModes_release (table : FileTable) (disk : Disk) :
    SameModes disk (table.release disk) := by
  unfold release
  split
  · exact SameModes.refl disk
  · exact Log.Appender.sameModes_write ..

theorem sameModes_commit {α : Type} (table : FileTable) (disk : Disk) (change : Change)
    (operation : MemoryTable → Except Fault α × MemoryTable) :
    SameModes disk (table.commit disk change operation).disk := by
  show SameModes disk (table.record disk change).2
  unfold record
  split
  · exact SameModes.refl disk
  · exact Log.Appender.sameModes_append ..

/-- No call but compaction makes a file, or moves one. -/
theorem sameModes_perform (session : Session) {call : Call} (hcall : call ≠ .compact) :
    SameModes session.disk (session.perform call).2.disk := by
  cases call with
  | store key content =>
    show SameModes _ (session.table.store session.disk key content).disk
    unfold store
    split
    · exact SameModes.refl _
    · exact sameModes_commit ..
  | insert key content =>
    show SameModes _ (session.table.insert session.disk key content).disk
    unfold insert
    split
    · exact SameModes.refl _
    · split
      · exact SameModes.refl _
      · exact sameModes_commit ..
  | delete key =>
    show SameModes _ (session.table.delete session.disk key).disk
    unfold delete
    split
    · exact SameModes.refl _
    · split
      · exact sameModes_commit ..
      · exact SameModes.refl _
  | fetch key => exact SameModes.refl _
  | first => exact SameModes.refl _
  | next => exact SameModes.refl _
  | sync => exact sameModes_sync session.table session.disk
  | compact => exact absurd rfl hcall

theorem sameModes_run (session : Session) {calls : List Call} (hcompact : .compact ∉ calls) :
    SameModes session.disk (session.run calls).disk := by
  induction calls generalizing session with
  | nil => exact SameModes.refl _
  | cons call calls ih =>
    rw [List.mem_cons, not_or] at hcompact
    exact (sameModes_perform session (Ne.symm hcompact.1)).trans (ih _ hcompact.2)

theorem sameModes_ended (session : Session) (ending : Ending) :
    SameModes session.disk (session.ended ending) := by
  have hsync := sameModes_sync session.table session.disk
  cases ending with
  | synced => exact hsync
  | closed => exact hsync.trans (sameModes_release ..)
  | dropped => exact sameModes_release ..

/-! ## Opening -/

theorem sameModes_cleared (disk : Disk) (file : Nat) (flags : OpenFlags) :
    SameModes disk (cleared disk file flags) := by
  unfold cleared
  split
  · exact Disk.sameModes_resize ..
  · exact SameModes.refl disk

theorem sameModes_repair (disk : Disk) (file : Nat) (bytes : Bytes) (recovery : Recovery) :
    SameModes disk (repair disk file bytes recovery) := by
  unfold repair
  split
  · exact (Disk.sameModes_resize ..).trans (Disk.sameModes_writeAt ..)
  · split
    · exact SameModes.refl disk
    · exact Disk.sameModes_resize ..

theorem sameModes_ofFile (disk : Disk) (file : Nat) (path : Path) (flags : OpenFlags)
    (settings : Settings) : SameModes disk (ofFile disk file path flags settings).disk := by
  unfold ofFile
  dsimp only
  split
  · exact SameModes.refl disk
  · split
    · exact SameModes.refl disk
    · exact sameModes_repair ..

/-- Opening a table leaves the permission bits of a file that is there, and gives those in the
flags to one that it makes, as far as they are granted. -/
theorem mode_openAt (disk : Disk) (path : Path) (flags : OpenFlags) (settings : Settings) :
    SameModes disk (openAt disk path flags settings).disk ∨
      (disk.find path = .ok none ∧
        (openAt disk path flags settings).disk.mode path =
          .ok (Disk.grantedMode flags.mode)) := by
  unfold openAt
  split
  · exact .inl (SameModes.refl disk)
  · cases hlocate : locateFile disk path flags with
    | error error => exact .inl (SameModes.refl disk)
    | ok found =>
      obtain ⟨file, located⟩ := found
      have hafter := (sameModes_cleared located file flags).trans
        (sameModes_ofFile (cleared located file flags) file path flags settings)
      unfold locateFile at hlocate
      split at hlocate
      · rcases Disk.mode_openOrMake hlocate with ⟨-, rfl⟩ | ⟨hmissing, hmode⟩
        · exact .inl hafter
        · exact .inr ⟨hmissing, (hafter.mode_eq path).trans hmode⟩
      · cases hnumber : disk.fileNumber path with
        | error error =>
          rw [hnumber] at hlocate
          cases hlocate
        | ok number =>
          rw [hnumber] at hlocate
          cases hlocate
          exact .inl hafter

/-! ## Compaction -/

/-- A new log has the permission bits of what was at the scratch path.  If nothing was, it has
those that a file gets for which nobody chooses them. -/
theorem mode_replaceLog (hdisk : disk.Sound) {old file : Nat} {bytes : Bytes} {after : Disk}
    (hnamed : disk.fileNumber path = .ok old)
    (h : replaceLog disk path bytes = (.ok file, after)) :
    (disk.fileNumber (path.extended scratchSuffix) = .ok file ∧
        after.mode path = disk.mode (path.extended scratchSuffix)) ∨
      (disk.find (path.extended scratchSuffix) = .ok none ∧
        after.mode path = .ok (Disk.grantedMode Disk.plainMode)) := by
  unfold replaceLog at h
  dsimp only at h
  cases hopen : disk.openEmpty (path.extended scratchSuffix) with
  | error error =>
    rw [hopen] at h
    cases h
  | ok found =>
    obtain ⟨scratch, cleared⟩ := found
    rw [hopen] at h
    dsimp only at h
    obtain ⟨-, hscratch, -, hothers⟩ := Disk.openEmpty_spec hdisk hopen
    have hnodes := Disk.nodes_append cleared scratch bytes
    cases hrename : (cleared.append scratch bytes).rename (path.extended scratchSuffix) path with
    | error error =>
      rw [hrename] at h
      cases h
    | ok renamed =>
      rw [hrename] at h
      cases h
      have hmoved := Disk.mode_rename (Disk.fileNumber_congr hnodes hscratch)
        (Disk.fileNumber_congr hnodes (hothers path old hnamed)) hrename
      obtain ⟨⟨fresh, made⟩, hmade, hcleared⟩ := Disk.bind_eq_ok_iff.mp hopen
      cases hcleared
      have hwritten := (Disk.sameModes_resize made file 0).trans
        (Disk.sameModes_append (made.resize file 0) file bytes)
      rw [hwritten.mode_eq] at hmoved
      rcases Disk.mode_openOrMake hmade with ⟨hfound, rfl⟩ | ⟨hmissing, hmode⟩
      · exact .inl ⟨hfound, hmoved⟩
      · exact .inr ⟨hmissing, hmoved.trans hmode⟩

/-- What becomes of the permission bits of the log of a session. -/
structure Bits (path : Path) (session : Session) : Prop where
  /-- The log has some. -/
  exists_mode : ∃ mode, session.disk.mode path = .ok mode
  /-- Any number of other calls leave them. -/
  called : ∀ calls, .compact ∉ calls →
    (session.run calls).disk.mode path = session.disk.mode path
  /-- So do giving the table up and opening it again. -/
  reopened : ∀ ending flags settings,
    (openAt (session.ended ending) path flags settings).disk.mode path = session.disk.mode path
  /-- A compaction that fails leaves them as well. -/
  failed : (session.perform .compact).1 ≠ .ok () →
    (session.perform .compact).2.disk.mode path = session.disk.mode path
  /-- After one that succeeds, the log has the bits of the file that was at the scratch path,
  or if there was none, those that a file gets for which nobody chooses them. -/
  compacted : (session.perform .compact).1 = .ok () →
    ((∃ number, session.disk.fileNumber (path.extended scratchSuffix) = .ok number) ∧
        (session.perform .compact).2.disk.mode path =
          session.disk.mode (path.extended scratchSuffix)) ∨
      (session.disk.find (path.extended scratchSuffix) = .ok none ∧
        (session.perform .compact).2.disk.mode path = .ok 0o644)

variable {log : Log.Appender} {frames : List Log.Frame}

/-- When compaction fails, the log has only been synced. -/
theorem Mirrors.sameModes_compact (h : Mirrors path session.table session.disk log frames)
    (hfailed : (session.perform .compact).1 ≠ .ok ()) :
    SameModes session.disk (session.perform .compact).2.disk := by
  have hsynced := h.sync
  rw [sync_eq h.hasLog] at hsynced
  show SameModes _ (session.table.compact session.disk).disk
  have hanswer : (session.table.compact session.disk).answer ≠ .ok () := hfailed
  unfold FileTable.compact at hanswer ⊢
  simp only [h.writable, h.hasPath, sync_eq h.hasLog, Bool.false_eq_true, if_false] at hanswer ⊢
  rcases replaceLog_cases hsynced.made hsynced.named (compactLog session.table.memory) with
    ⟨error, hreplace⟩ | ⟨file, after, hreplace, -⟩
  · rw [hreplace]
    exact Log.Appender.sameModes_sync ..
  · rw [hreplace] at hanswer
    exact absurd rfl hanswer

theorem Mirrors.bits (h : Mirrors path session.table session.disk log frames) :
    Bits path session where
  exists_mode := ⟨_, Disk.mode_of_fileNumber h.named⟩
  called := fun _ hcompact => (sameModes_run session hcompact).mode_eq path
  reopened := by
    intro ending flags settings
    have hended := sameModes_ended session ending
    obtain ⟨-, hnamed, -⟩ := h.ended ending
    rcases mode_openAt (session.ended ending) path flags settings with hopened | ⟨hmissing, -⟩
    · exact (hended.trans hopened).mode_eq path
    · rw [Disk.find_of_fileNumber hnamed] at hmissing
      cases hmissing
  failed := fun hfailed => (h.sameModes_compact hfailed).mode_eq path
  compacted := by
    intro hok
    have hsynced := h.sync
    rw [sync_eq h.hasLog] at hsynced
    have hsame := Log.Appender.sameModes_sync log session.disk
    obtain ⟨file, hreplace, -⟩ := h.exists_replaceLog hok
    rcases mode_replaceLog hsynced.made hsynced.named hreplace with
      ⟨hfound, hmode⟩ | ⟨hmissing, hmode⟩
    · rw [hsame.mode_eq] at hmode
      exact .inl ⟨⟨file, Disk.fileNumber_congr hsame.nodes.symm hfound⟩, hmode⟩
    · rw [Disk.find_congr hsame.nodes] at hmissing
      exact .inr ⟨hmissing, hmode⟩

/-- At every point of a history, the log keeps its permission bits in whatever is done next but
for compaction, which gives it those of a new file. -/
theorem Reached.keeps_bits {count : Nat} (h : Reached path session count) :
    Bits path session := by
  obtain ⟨log, frames, hmirrors, -⟩ := h.exists_mirrors
  exact hmirrors.bits

/-- A table whose file is made for its owner alone. -/
def ownersOnly : Opening :=
  openAt .empty ⟨"t"⟩ { OpenFlags.creating with mode := 0o600 } { initialBuckets := 2 }

/-- Such a file still has the permission bits that were asked for when the table was changed,
synced, dropped and opened again by somebody who asks for others. -/
theorem Reached.keeps_bits_ownersOnly :
    let opened : Session := ⟨newTable, ownersOnly.disk⟩
    let calls : List Call :=
      [.store [1] (.given [2]), .sync, .store [1] (.given [3]), .delete [1]]
    let dropped := (opened.run calls).ended .dropped
    ownersOnly.answer = .ok newTable ∧ ownersOnly.disk.mode ⟨"t"⟩ = .ok 0o600 ∧
      opened.framesAfterRun calls 0 = 3 ∧
      ∃ again, (openAt dropped ⟨"t"⟩ .creating {}).answer = .ok again ∧
        (openAt dropped ⟨"t"⟩ .creating {}).disk.mode ⟨"t"⟩ = .ok 0o600 ∧
        Bits ⟨"t"⟩ ⟨again, (openAt dropped ⟨"t"⟩ .creating {}).disk⟩ := by
  intro opened calls dropped
  have hopen : ownersOnly.answer = .ok newTable := by cbv
  have hmode : ownersOnly.disk.mode ⟨"t"⟩ = .ok 0o600 := by cbv
  have hframes : opened.framesAfterRun calls 0 = 3 := by
    decide +kernel
  have hshort : ∀ call ∈ calls, ∀ change ∈ call.change?, (Log.payload change).length < 2 ^ 32 := by
    decide
  have hopened : Reached ⟨"t"⟩ opened 0 := .opened .empty rfl hopen
  have hcalled := hopened.run hshort
  obtain ⟨again, hagain, hreached⟩ := hcalled.exists_reopened .dropped .creating {} rfl rfl rfl rfl
  have hbits := hcalled.keeps_bits.reopened .dropped .creating {}
  rw [hopened.keeps_bits.called calls (by simp [calls])] at hbits
  exact ⟨hopen, hmode, hframes, again, hagain, hbits.trans hmode, hreached.keeps_bits⟩

/-- After compaction everybody may read it. -/
theorem bits_widened :
    ∃ table, ownersOnly.answer = .ok table ∧ ownersOnly.disk.mode ⟨"t"⟩ = .ok 0o600 ∧
      (table.compact ownersOnly.disk).answer = .ok () ∧
      (table.compact ownersOnly.disk).disk.mode ⟨"t"⟩ = .ok 0o644 := by
  have hopen : ownersOnly.answer = .ok newTable := by cbv
  have hcompact : (newTable.compact ownersOnly.disk).answer = .ok () := by
    decide +kernel
  have hmode : (newTable.compact ownersOnly.disk).disk.mode ⟨"t"⟩ = .ok 0o644 := by
    decide +kernel
  exact ⟨newTable, hopen, by cbv, hcompact, hmode⟩

end FileTable
end KeyTable
