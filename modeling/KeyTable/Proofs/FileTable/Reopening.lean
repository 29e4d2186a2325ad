import Mathlib
import KeyTable.Proofs.FileTable.Session

/-!
# Histories of a file table

A file table is opened, called, given up and opened again, any number of times
(`Reached`); whenever it is given up, it can be opened again (`Reached.exists_reopened`).
At every point of such a history the log and the records are in step
(`Reached.log_in_step`): what the log makes of an empty table are the records, a call
that is refused logs nothing, and to open the file again gives the same records.
-/

namespace KeyTable
namespace FileTable

open Log (Frame ofFrames)

/-- How a table is given up. -/
inductive Ending where
  /-- It is synced, and then left as it is. -/
  | synced
  /-- It is closed. -/
  | closed
  /-- It is dropped. -/
  | dropped

namespace Session

/-- The disk after the table was given up. -/
def ended (session : Session) : Ending → Disk
  | .synced => (session.table.sync session.disk).2
  | .closed => Table.close (.file session.table) session.disk
  | .dropped => session.table.release session.disk

end Session

/-- The sessions with a table for changing the file at a path, and the number of frames
in its log: those found when the table was first opened, or left by the last compaction,
and one for each change since.

Changes with a payload of `2 ^ 32` bytes or more are left out; their frames cannot say
how long they are. -/
inductive Reached (path : Path) : Session → Nat → Prop
  /-- The table is opened for the first time. -/
  | opened {disk : Disk} {flags : OpenFlags} {settings : Settings} {table : FileTable} :
      disk.Reachable → flags.readOnly = false →
      (openAt disk path flags settings).answer = .ok table →
      Reached path ⟨table, (openAt disk path flags settings).disk⟩ table.recovery.applied
  /-- A call is made. -/
  | called {session : Session} {frames : Nat} {call : Call} :
      Reached path session frames →
      (∀ change ∈ session.made? call, (Log.payload change).length < 2 ^ 32) →
      Reached path (session.perform call).2 (session.framesAfter call frames)
  /-- The table is given up and opened again, perhaps to be emptied. -/
  | reopened {session : Session} {frames : Nat} {ending : Ending} {flags : OpenFlags}
      {settings : Settings} {table : FileTable} :
      Reached path session frames → flags.readOnly = false →
      (openAt (session.ended ending) path flags settings).answer = .ok table →
      Reached path ⟨table, (openAt (session.ended ending) path flags settings).disk⟩
        (if flags.truncate then 0 else frames)

variable {path : Path} {table : FileTable} {disk : Disk} {session : Session} {log : Log.Appender}
  {frames : List Frame}

/-! ## Giving up a table -/

/-- With nothing left in the buffer, the frames are all in the file. -/
theorem Mirrors.settled (h : Mirrors path table disk log frames) {after : Log.Appender × Disk}
    (hadvance : Log.Appender.Advances (log, disk) [] after) (hpending : after.1.pending = []) :
    after.2.Sound ∧ after.2.fileNumber path = .ok log.file ∧
      after.2.contents log.file = ofFrames frames := by
  refine ⟨h.made.congr hadvance.nodes hadvance.size,
    Disk.fileNumber_congr hadvance.nodes h.named, ?_⟩
  have hlogged := hadvance.logged
  rw [Log.Appender.logged, hpending, List.append_nil, List.append_nil, h.logged,
    hadvance.file] at hlogged
  exact hlogged

theorem release_eq (h : table.log = some log) (disk : Disk) :
    table.release disk = (log.flush disk).2 := by
  unfold release
  rw [h]

/-- However the table is given up, all frames are in the file then. -/
theorem Mirrors.ended (h : Mirrors path session.table session.disk log frames) (ending : Ending) :
    (session.ended ending).Sound ∧ (session.ended ending).fileNumber path = .ok log.file ∧
      (session.ended ending).contents log.file = ofFrames frames := by
  have hsync := Log.Appender.advances_sync h.fits
  cases ending with
  | synced =>
    show (session.table.sync session.disk).2.Sound ∧ _
    rw [Session.ended, sync_eq h.hasLog]
    exact h.settled hsync (Log.Appender.pending_sync ..)
  | closed =>
    have hclosed : session.ended .closed =
        (session.table.sync session.disk).1.release (session.table.sync session.disk).2 := rfl
    have hsettled := h.sync.settled (Log.Appender.advances_flush h.sync.fits)
      (Log.Appender.pending_flush ..)
    rw [hclosed, release_eq h.sync.hasLog, ← hsync.file]
    exact hsettled
  | dropped =>
    have hdropped : session.ended .dropped = (log.flush session.disk).2 :=
      release_eq h.hasLog session.disk
    rw [hdropped]
    exact h.settled (Log.Appender.advances_flush h.fits) (Log.Appender.pending_flush ..)

/-! ## Opening it again -/

theorem flaw?_of_openAt {flags : OpenFlags} {settings : Settings}
    (h : (openAt disk path flags settings).answer = .ok table) :
    settings.flaw? = none ∧ flags.flaw? = none := by
  obtain ⟨hsettings, hflags, -⟩ := exists_located_of_openAt h
  exact ⟨hsettings, hflags⟩

/-- A whole log can be opened again, and holds the same records. -/
theorem Mirrors.reopen (h : Mirrors path session.table session.disk log frames) (ending : Ending)
    {flags : OpenFlags} {settings : Settings} (hsettings : settings.flaw? = none)
    (hflags : flags.flaw? = none) (htruncate : flags.truncate = false) :
    ∃ table, (openAt (session.ended ending) path flags settings).answer = .ok table ∧
      table.memory.contents = session.table.memory.contents ∧
      table.recovery.applied = frames.length ∧ table.recovery.discarded = 0 := by
  obtain ⟨hsound, hnamed, hcontents⟩ := h.ended ending
  have hbytes : (if flags.truncate then [] else (session.ended ending).contents log.file) =
      ofFrames frames := by
    rw [if_neg (ne_true_of_eq_false htruncate), hcontents]
  have hrecover := recover_ofFrames h.intact settings
  rw [← hbytes] at hrecover
  obtain ⟨table, hanswer, hmemory, happlied, hdiscarded⟩ :=
    openAt_of_recover hsound hsettings hflags hnamed hrecover
  refine ⟨table, hanswer, ?_, happlied, hdiscarded⟩
  rw [hmemory, h.contents]
  exact (replayed_spec settings _).2

/-- A log that is emptied when it is opened has no frames. -/
theorem Mirrors.applied_of_truncate (h : Mirrors path session.table session.disk log frames)
    (ending : Ending) {flags : OpenFlags} {settings : Settings} (htruncate : flags.truncate = true)
    (hopen : (openAt (session.ended ending) path flags settings).answer = .ok table) :
    table.recovery.applied = 0 := by
  obtain ⟨hsettings, hflags⟩ := flaw?_of_openAt hopen
  obtain ⟨hsound, hnamed, -⟩ := h.ended ending
  have hrecover : recover settings (if flags.truncate then [] else
      (session.ended ending).contents log.file) = .ok (.ofSettings settings, {}) := by
    rw [if_pos htruncate]
    rfl
  obtain ⟨other, hother, -, happlied, -⟩ :=
    openAt_of_recover hsound hsettings hflags hnamed hrecover
  rw [hopen] at hother
  cases hother
  exact happlied

/-! ## Histories -/

/-- In every session of a history, the table mirrors its log. -/
theorem Reached.exists_mirrors {count : Nat} (h : Reached path session count) :
    ∃ log frames, Mirrors path session.table session.disk log frames ∧ frames.length = count := by
  induction h with
  | opened hdisk hwritable hopen =>
    obtain ⟨log, frames, hmirrors, -, -, -, happlied⟩ :=
      exists_mirrors_of_openAt hdisk.sound hwritable hopen
    exact ⟨log, frames, hmirrors, happlied.symm⟩
  | called hreached hpayload ih =>
    obtain ⟨log, frames, hmirrors, rfl⟩ := ih
    exact hmirrors.perform hpayload
  | @reopened session count ending flags settings table hreached hwritable hopen ih =>
    obtain ⟨log, frames, hmirrors, rfl⟩ := ih
    obtain ⟨hsettings, hflags⟩ := flaw?_of_openAt hopen
    obtain ⟨hsound, -, -⟩ := hmirrors.ended ending
    obtain ⟨next, more, hnext, -, -, -, hmore⟩ := exists_mirrors_of_openAt hsound hwritable hopen
    refine ⟨next, more, hnext, ?_⟩
    rw [← hmore]
    cases htruncate : flags.truncate with
    | true => exact hmirrors.applied_of_truncate ending htruncate hopen
    | false =>
      obtain ⟨other, hother, -, happlied, -⟩ := hmirrors.reopen ending hsettings hflags htruncate
      rw [hopen] at hother
      cases hother
      exact happlied

/-- At any point of a history, calls can be made whose changes fit their frames. -/
theorem Reached.run {count : Nat} (h : Reached path session count) {calls : List Call}
    (hpayload : ∀ call ∈ calls, ∀ change ∈ call.change?, (Log.payload change).length < 2 ^ 32) :
    Reached path (session.run calls) (session.framesAfterRun calls count) := by
  induction calls generalizing session count with
  | nil => exact h
  | cons call calls ih =>
    rw [List.forall_mem_cons] at hpayload
    obtain ⟨hcall, hcalls⟩ := hpayload
    exact ih (.called h fun change hmade => hcall change (change?_of_made? hmade)) hcalls

/-- At any point of a history, the table can be given up and opened again. -/
theorem Reached.exists_reopened {count : Nat} (h : Reached path session count) (ending : Ending)
    (flags : OpenFlags) (settings : Settings) (hsettings : settings.flaw? = none)
    (hflags : flags.flaw? = none) (htruncate : flags.truncate = false)
    (hwritable : flags.readOnly = false) :
    ∃ table, (openAt (session.ended ending) path flags settings).answer = .ok table ∧
      Reached path ⟨table, (openAt (session.ended ending) path flags settings).disk⟩ count := by
  obtain ⟨log, frames, hmirrors, -⟩ := h.exists_mirrors
  obtain ⟨table, hopen, -⟩ := hmirrors.reopen ending hsettings hflags htruncate
  have hreached := Reached.reopened h hwritable hopen
  rw [htruncate] at hreached
  exact ⟨table, hopen, hreached⟩

theorem written_append_buffered (h : session.table.log = some log) :
    session.written ++ session.buffered = log.logged session.disk := by
  rw [Session.written, Session.buffered, h]
  rfl

/-- A call that is refused logs nothing. -/
theorem Mirrors.refused (h : Mirrors path session.table session.disk log frames) {call : Call}
    (hrefused : (session.perform call).1 = .error .alreadyExists ∨
      (session.perform call).1 = .error .notFound) :
    (session.perform call).2.written ++ (session.perform call).2.buffered =
      session.written ++ session.buffered := by
  have hmade : session.made? call = none := hrefused.elim made?_of_error made?_of_error
  by_cases hcall : call = .compact
  · subst hcall
    -- compaction fails for other reasons
    rcases h.compact with ⟨error, hanswer, -⟩ | ⟨fresh, hanswer, -⟩
    · have hfailed : (session.perform .compact).1 = .error (.disk error) := hanswer
      rw [hfailed] at hrefused
      rcases hrefused with hrefused | hrefused <;> cases hrefused
    · have hok : (session.perform .compact).1 = .ok () := hanswer
      rw [hok] at hrefused
      rcases hrefused with hrefused | hrefused <;> cases hrefused
  · have heffect := effect_perform h.hasLog h.writable h.sound hcall
    rw [hmade] at heffect
    obtain ⟨next, hmirrors, hadvance⟩ := h.effect heffect nofun
    rw [written_append_buffered hmirrors.hasLog, written_append_buffered h.hasLog,
      hadvance.logged]
    exact List.append_nil _

/-- The log and the records are in step, with so many frames in the log. -/
structure InStep (path : Path) (session : Session) (count : Nat) : Prop where
  /-- The path leads to the file of the log. -/
  read : session.disk.read path = .ok session.written
  /-- What is in the file, and behind it in the buffer, makes the records out of any empty
  table. -/
  replayed : ∃ changes recovery,
    Log.replay (session.written ++ session.buffered) = .ok (changes, recovery) ∧
      recovery.applied = count ∧ recovery.discarded = 0 ∧
      ∀ buckets, (changes.foldl MemoryTable.apply (.withBuckets buckets)).contents =
        session.table.memory.contents
  /-- A call that is refused adds no byte to the log. -/
  refused : ∀ call, ((session.perform call).1 = .error .alreadyExists ∨
      (session.perform call).1 = .error .notFound) →
    (session.perform call).2.written ++ (session.perform call).2.buffered =
      session.written ++ session.buffered
  /-- However the table is given up, to open the file again gives the same records, from all
  the frames and with nothing discarded. -/
  reopened : ∀ (ending : Ending) (flags : OpenFlags) (settings : Settings),
    settings.flaw? = none → flags.flaw? = none → flags.truncate = false →
    ∃ table, (openAt (session.ended ending) path flags settings).answer = .ok table ∧
      table.memory.contents = session.table.memory.contents ∧
      table.recovery.applied = count ∧ table.recovery.discarded = 0

theorem Mirrors.inStep (h : Mirrors path session.table session.disk log frames) :
    InStep path session frames.length where
  read := by
    rw [Disk.read, h.named, Session.written, h.hasLog]
    rfl
  replayed := by
    have hreplay := Log.replay_ofFrames h.intact
    rw [← h.logged, ← written_append_buffered h.hasLog] at hreplay
    refine ⟨_, _, hreplay, rfl, rfl, fun buckets => ?_⟩
    have hchanges := (MemoryTable.sound_withBuckets buckets).foldl_apply (frames.map Frame.change)
    rw [hchanges.2, MemoryTable.contents_withBuckets, h.contents]
    rfl
  refused := fun call => h.refused
  reopened := fun ending flags settings => h.reopen ending

/-- At every point of a history, the log and the records are in step. -/
theorem Reached.log_in_step {count : Nat} (h : Reached path session count) :
    InStep path session count := by
  obtain ⟨log, frames, hmirrors, rfl⟩ := h.exists_mirrors
  exact hmirrors.inStep

/-- A table with two buckets, in a file that was made for it. -/
def newTable : FileTable :=
  ⟨.withBuckets 2, some (.onFile 0 (.offset 6) (.every 64)), some ⟨"t"⟩, false, .every 64, {}⟩

/-- A key is added, given another value and not added again, another key is added and removed,
and the log is compacted, closed and opened again: of its four frames, one is left. -/
theorem Reached.log_in_step_reopened :
    let settings : Settings := { initialBuckets := 2 }
    let opened : Session := ⟨newTable, (openAt .empty ⟨"t"⟩ .creating settings).disk⟩
    let calls : List Call := [.store [1] (.given [2]), .store [1] (.given [3]),
      .insert [1] (.given [4]), .store [5] (.given [6]), .delete [5], .compact]
    let closed := (opened.run calls).ended .closed
    (openAt .empty ⟨"t"⟩ .creating settings).answer = .ok newTable ∧
      ((opened.run (calls.take 2)).perform (.insert [1] (.given [4]))).1 =
        .error .alreadyExists ∧
      opened.framesAfterRun (calls.take 5) 0 = 4 ∧
      ∃ again, (openAt closed ⟨"t"⟩ .readWrite settings).answer = .ok again ∧
        InStep ⟨"t"⟩ ⟨again, (openAt closed ⟨"t"⟩ .readWrite settings).disk⟩ 1 := by
  intro settings opened calls closed
  have hopen : (openAt .empty ⟨"t"⟩ .creating settings).answer = .ok newTable := by cbv
  have hrefused : ((opened.run (calls.take 2)).perform (.insert [1] (.given [4]))).1 =
      .error .alreadyExists := by
    decide +kernel
  have hframes : opened.framesAfterRun (calls.take 5) 0 = 4 := by
    decide +kernel
  have hcompacted : opened.framesAfterRun calls 0 = 1 := by
    decide +kernel
  have hshort : ∀ call ∈ calls, ∀ change ∈ call.change?, (Log.payload change).length < 2 ^ 32 := by
    decide
  have hopened : Reached ⟨"t"⟩ opened 0 := .opened .empty rfl hopen
  have hcalled := hopened.run hshort
  rw [hcompacted] at hcalled
  obtain ⟨again, hagain, hreached⟩ := hcalled.exists_reopened .closed .readWrite settings
    rfl rfl rfl rfl
  exact ⟨hopen, hrefused, hframes, again, hagain, hreached.log_in_step⟩

end FileTable
end KeyTable
