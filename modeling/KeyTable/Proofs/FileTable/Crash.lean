import Mathlib
import KeyTable.Proofs.FileTable.Session

/-!
# Crashes

What is left of a table when it is cut off in the middle of its work.  The file holds a
beginning of what the table has logged since it was opened, and the sync policy bounds
how many frames it lacks (`Timely`).  Whatever the cut, the file can be opened again,
to what the frames in front of the cut make (`opens_after_cut`).

`run_crashSafe` says so of every run of calls without compaction, which starts the log
anew.
-/

namespace KeyTable
namespace FileTable

open Log (Frame ofFrames)

/-! ## What a run logs -/

namespace Session

/-- The changes that the calls make, in order. -/
def changes (session : Session) : List Call → List Change
  | [] => []
  | call :: calls => (session.made? call).toList ++ (session.perform call).2.changes calls

/-- The bytes in the file at first, and behind them the frames of the changes that the
calls make. -/
def logAfter (session : Session) (calls : List Call) : Bytes :=
  session.written ++ (session.changes calls).flatMap Log.encodeFrame

end Session

variable {path : Path} {session : Session} {log : Log.Appender} {frames : List Frame}

/-! ## How much the file lacks -/

/-- The file lacks no more frames than were logged since the last sync, and the appender
has kept to its sync policy. -/
structure Timely (log : Log.Appender) (disk : Disk) (frames : List Frame) : Prop where
  /-- What the file lacks came after the last sync. -/
  lacking_le : Log.lacking (disk.contents log.file).length frames ≤ log.unsynced
  /-- No sync is due. -/
  prompt : log.Prompt

/-- With nothing in the buffer, the file lacks nothing. -/
theorem Mirrors.lacking_eq_zero {table : FileTable} {disk : Disk}
    (h : Mirrors path table disk log frames) (hpending : log.pending = []) :
    Log.lacking (disk.contents log.file).length frames = 0 := by
  have hlogged := h.logged
  rw [Log.Appender.logged, hpending, List.append_nil] at hlogged
  rw [hlogged, Log.lacking_ofFrames]

theorem Timely.effect (h : Mirrors path session.table session.disk log frames)
    (htimely : Timely log session.disk frames) (hpolicy : log.policy ≠ .every 0) {call : Call}
    {change : Option Change} {after : Session} (heffect : Effect session log call change after)
    (hpayload : ∀ made ∈ change, (Log.payload made).length < 2 ^ 32) :
    ∃ next, Mirrors path after.table after.disk next (frames ++ framesOf change) ∧
      next.policy = log.policy ∧ Timely next after.disk (frames ++ framesOf change) := by
  obtain ⟨next, hmirrors, hadvance⟩ := h.effect heffect hpayload
  refine ⟨next, hmirrors, hadvance.policy, ?_⟩
  have hnext := hmirrors.hasLog
  cases heffect with
  | @logged call change memory sound contents =>
    cases hnext
    refine ⟨?_, Log.Appender.prompt_append h.fits hpolicy _⟩
    rcases Log.Appender.append_cases log session.disk (Log.encodeFrame change) with
      ⟨hpending, hunsynced⟩ | ⟨-, hunsynced⟩
    · rw [hmirrors.lacking_eq_zero hpending]
      exact Nat.zero_le _
    · have hmore := Log.lacking_append_le hadvance.kept.length_le frames (framesOf (some change))
      rw [hunsynced]
      exact Nat.le_trans hmore (Nat.succ_le_succ htimely.lacking_le)
  | synced =>
    cases hnext
    refine ⟨?_, Log.Appender.prompt_sync h.fits hpolicy⟩
    rw [hmirrors.lacking_eq_zero rfl]
    exact Nat.zero_le _
  | @answered call memory sound contents =>
    have hsame : next = log := Option.some_inj.mp (hnext.symm.trans h.hasLog)
    rw [hsame, framesOf, Option.toList_none, List.map_nil, List.append_nil]
    exact htimely

/-- A run without compaction adds the frames of its changes to the log.  Whatever every
call keeps of the log, the run keeps. -/
theorem Mirrors.run_of_effect (Kept : Log.Appender → Disk → List Frame → Prop)
    (hkept : ∀ {session : Session} {log : Log.Appender} {frames : List Frame} {call : Call}
      {change : Option Change} {after : Session},
      Mirrors path session.table session.disk log frames → Kept log session.disk frames →
      Effect session log call change after →
      (∀ made ∈ change, (Log.payload made).length < 2 ^ 32) →
      ∃ next, Mirrors path after.table after.disk next (frames ++ framesOf change) ∧
        Kept next after.disk (frames ++ framesOf change))
    (h : Mirrors path session.table session.disk log frames) (hstart : Kept log session.disk frames)
    {calls : List Call} (hcompact : .compact ∉ calls)
    (hpayload : ∀ change ∈ session.changes calls, (Log.payload change).length < 2 ^ 32) :
    ∃ next, Mirrors path (session.run calls).table (session.run calls).disk next
        (frames ++ (session.changes calls).map Frame.ofChange) ∧
      Kept next (session.run calls).disk
        (frames ++ (session.changes calls).map Frame.ofChange) := by
  induction calls generalizing session log frames with
  | nil =>
    rw [Session.changes, List.map_nil, List.append_nil]
    exact ⟨log, h, hstart⟩
  | cons call calls ih =>
    rw [List.mem_cons, not_or] at hcompact
    rw [Session.changes] at hpayload
    have heffect := effect_perform h.hasLog h.writable h.sound (Ne.symm hcompact.1)
    obtain ⟨next, hmirrors, hnext⟩ := hkept h hstart heffect fun change hchange =>
      hpayload change (List.mem_append_left _ (Option.mem_toList.mpr hchange))
    have hrest := ih hmirrors hnext hcompact.2 fun change hchange =>
      hpayload change (List.mem_append_right _ hchange)
    rw [Session.changes, List.map_append, ← List.append_assoc]
    exact hrest

/-- A table that mirrors its log does so after a run. -/
theorem Mirrors.exists_run (h : Mirrors path session.table session.disk log frames)
    {calls : List Call} (hcompact : .compact ∉ calls)
    (hpayload : ∀ change ∈ session.changes calls, (Log.payload change).length < 2 ^ 32) :
    ∃ next, Mirrors path (session.run calls).table (session.run calls).disk next
      (frames ++ (session.changes calls).map Frame.ofChange) := by
  refine (h.run_of_effect (fun _ _ _ => True) ?_ trivial hcompact hpayload).imp fun _ => And.left
  intro session log frames call change after hmirrors _ heffect hpayload
  obtain ⟨next, hnext, -⟩ := hmirrors.effect heffect hpayload
  exact ⟨next, hnext, trivial⟩

/-- A run without compaction keeps to the sync policy. -/
theorem Mirrors.run (h : Mirrors path session.table session.disk log frames)
    (htimely : Timely log session.disk frames) (hpolicy : log.policy ≠ .every 0) {calls : List Call}
    (hcompact : .compact ∉ calls)
    (hpayload : ∀ change ∈ session.changes calls, (Log.payload change).length < 2 ^ 32) :
    ∃ next, Mirrors path (session.run calls).table (session.run calls).disk next
        (frames ++ (session.changes calls).map Frame.ofChange) ∧
      next.policy = log.policy ∧
      Timely next (session.run calls).disk
        (frames ++ (session.changes calls).map Frame.ofChange) := by
  refine h.run_of_effect
    (fun last disk frames => last.policy = log.policy ∧ Timely last disk frames) ?_
    ⟨rfl, htimely⟩ hcompact hpayload
  rintro session last frames call change after hmirrors ⟨hsame, htimely⟩ heffect hpayload
  obtain ⟨next, hnext, hnextPolicy, hnextTimely⟩ :=
    htimely.effect hmirrors (hsame ▸ hpolicy) heffect hpayload
  exact ⟨next, hnext, hnextPolicy.trans hsame, hnextTimely⟩

/-! ## Opening what is left -/

/-- A file that holds the log up to a cut, wherever the cut is, can be opened, to what the
frames in front of the cut make and no more. -/
theorem opens_after_cut (hintact : ∀ frame ∈ frames, frame.Intact) {disk : Disk}
    (hdisk : disk.Sound) {file cut : Nat} (hnamed : disk.fileNumber path = .ok file)
    (hcontents : disk.contents file = (ofFrames frames).take cut) {flags : OpenFlags}
    {settings : Settings} (hsettings : settings.flaw? = none) (hflags : flags.flaw? = none)
    (htruncate : flags.truncate = false) :
    ∃ table, (openAt disk path flags settings).answer = .ok table ∧
      table.memory.contents = Contents.ofChanges
        ((Log.wholeWithin (cut - Log.headerSize) frames).map Frame.change) := by
  obtain ⟨memory, recovery, hrecover, hmemory, -⟩ := recover_take_ofFrames hintact settings cut
  have hbytes : (if flags.truncate then [] else disk.contents file) =
      (ofFrames frames).take cut := by
    rw [if_neg (ne_true_of_eq_false htruncate), hcontents]
  rw [← hbytes] at hrecover
  obtain ⟨table, hanswer, hsame, -, -⟩ :=
    openAt_of_recover hdisk hsettings hflags hnamed hrecover
  exact ⟨table, hanswer, by rw [hsame, hmemory]⟩

/-! ## Every run -/

/-- What a crash can leave of a session after calls, if these are the frames of its log. -/
structure CrashSafe (opened : Session) (calls : List Call) (policy : SyncPolicy)
    (frames : List Frame) : Prop where
  /-- The log is made up of the frames. -/
  log : opened.logAfter calls = ofFrames frames
  /-- The file holds a beginning of the log. -/
  written : (opened.run calls).written <+: opened.logAfter calls
  /-- If every change is to be synced, the file lacks none. -/
  everyWrite : policy = .everyWrite → Log.lacking (opened.run calls).written.length frames = 0
  /-- If the file is to be synced after so many changes, it lacks fewer. -/
  every : ∀ count, policy = .every count →
    Log.lacking (opened.run calls).written.length frames < count
  /-- After a sync it lacks none. -/
  synced : Log.lacking ((opened.run calls).perform .sync).2.written.length frames = 0
  /-- A file that holds the log up to a cut can be opened, to what the frames in front of the
  cut make and no more. -/
  cut : ∀ (cut file : Nat) (disk : Disk) (path : Path) (flags : OpenFlags) (settings : Settings),
    disk.Reachable → disk.fileNumber path = .ok file →
    disk.contents file = (opened.logAfter calls).take cut →
    settings.flaw? = none → flags.flaw? = none → flags.truncate = false →
    ∃ table, (openAt disk path flags settings).answer = .ok table ∧
      table.memory.contents = Contents.ofChanges
        ((Log.wholeWithin (cut - Log.headerSize) frames).map Frame.change)

theorem written_eq (h : session.table.log = some log) :
    session.written = session.disk.contents log.file := by
  rw [Session.written, h]

theorem Mirrors.crashSafe (h : Mirrors path session.table session.disk log frames)
    (hwritten : session.written = ofFrames frames) (htimely : Timely log session.disk frames)
    (hpolicy : log.policy ≠ .every 0) {calls : List Call} (hcompact : .compact ∉ calls)
    (hpayload : ∀ change ∈ session.changes calls, (Log.payload change).length < 2 ^ 32) :
    CrashSafe session calls log.policy
      (frames ++ (session.changes calls).map Frame.ofChange) := by
  obtain ⟨last, hlast, hsame, htimely⟩ := h.run htimely hpolicy hcompact hpayload
  have hlog : session.logAfter calls =
      ofFrames (frames ++ (session.changes calls).map Frame.ofChange) := by
    rw [Session.logAfter, hwritten, Log.ofFrames_append, Log.joined, List.flatMap_map]
    rfl
  have hprompt := htimely.prompt
  unfold Log.Appender.Prompt at hprompt
  refine ⟨hlog, ?_, ?_, ?_, ?_, ?_⟩
  · rw [hlog, ← hlast.logged, written_eq hlast.hasLog]
    exact List.prefix_append _ _
  · intro hevery
    rw [hsame, hevery] at hprompt
    rw [written_eq hlast.hasLog]
    exact hlast.lacking_eq_zero hprompt
  · intro count hcount
    rw [hsame, hcount] at hprompt
    rw [written_eq hlast.hasLog]
    exact Nat.lt_of_le_of_lt htimely.lacking_le hprompt
  · have hsynced := hlast.sync
    show Log.lacking (Session.mk ((session.run calls).table.sync (session.run calls).disk).1
      ((session.run calls).table.sync (session.run calls).disk).2).written.length _ = 0
    rw [written_eq hsynced.hasLog]
    exact hsynced.lacking_eq_zero rfl
  · intro cut file disk other flags settings hdisk hnamed hcontents
    rw [hlog] at hcontents
    exact opens_after_cut hlast.intact hdisk.sound hnamed hcontents

/-- Whatever is done to a table that was opened for writing, a crash leaves a beginning of
its log, and this lacks no more frames than the sync policy allows.  The log consists of
the frames that the file held when it was opened, and of one for each change since. -/
theorem run_crashSafe {disk : Disk} {flags : OpenFlags} {settings : Settings} {opened : Session}
    {notices : List Notice} {calls : List Call} (hdisk : disk.Reachable)
    (hwritable : flags.readOnly = false)
    (hopen : openAt disk path flags settings = ⟨.ok opened.table, opened.disk, notices⟩)
    (hcompact : .compact ∉ calls)
    (hpayload : ∀ change ∈ opened.changes calls, (Log.payload change).length < 2 ^ 32) :
    ∃ old : List Frame, (∀ frame ∈ old, frame.Intact) ∧ opened.written = ofFrames old ∧
      CrashSafe opened calls settings.sync
        (old ++ (opened.changes calls).map Frame.ofChange) := by
  have hanswer : (openAt disk path flags settings).answer = .ok opened.table := by rw [hopen]
  obtain ⟨log, old, hmirrors, hlog, -, hsync, -⟩ :=
    exists_mirrors_of_openAt hdisk.sound hwritable hanswer
  rw [hopen] at hmirrors
  have hpending : log.pending = [] := by rw [hlog]; rfl
  have hpolicy : log.policy = settings.sync := by rw [hlog]; rfl
  have hunsynced : log.unsynced = 0 := by rw [hlog]; rfl
  have hwritten : opened.written = ofFrames old := by
    rw [written_eq hmirrors.hasLog, ← hmirrors.logged, Log.Appender.logged, hpending,
      List.append_nil]
  have htimely : Timely log opened.disk old :=
    ⟨(hmirrors.lacking_eq_zero hpending).trans_le (Nat.zero_le _),
      Log.Appender.prompt_of_settled hpending hunsynced (hpolicy ▸ hsync)⟩
  rw [← hpolicy]
  exact ⟨old, hmirrors.intact, hwritten,
    hmirrors.crashSafe hwritten htimely (hpolicy ▸ hsync) hcompact hpayload⟩

/-- A table in a file that was made for it, and one record that is then synced. -/
theorem run_crashSafe_stored :
    ∃ (opened : Session) (old : List Frame),
      openAt .empty ⟨"t"⟩ .creating {} = ⟨.ok opened.table, opened.disk, []⟩ ∧
      opened.changes [.store [1] (.given [2]), .sync] = [.store [1] [2]] ∧
      CrashSafe opened [.store [1] (.given [2]), .sync] (.every 64)
        (old ++ (opened.changes [.store [1] (.given [2]), .sync]).map Frame.ofChange) := by
  let opened : Session := ⟨⟨.ofSettings {}, some (.onFile 0 (.offset 6) (.every 64)), some ⟨"t"⟩,
    false, .every 64, {}⟩, ⟨[(["t"], .file 0)], #[⟨Log.header.toArray, 0o644⟩]⟩⟩
  have hopen : openAt .empty ⟨"t"⟩ .creating {} = ⟨.ok opened.table, opened.disk, []⟩ := by cbv
  have hchanges : opened.changes [.store [1] (.given [2]), .sync] = [.store [1] [2]] := by cbv
  have hpayload : ∀ change ∈ opened.changes [.store [1] (.given [2]), .sync],
      (Log.payload change).length < 2 ^ 32 := by
    rw [hchanges]
    decide
  obtain ⟨old, -, -, hsafe⟩ := run_crashSafe .empty rfl hopen (by simp) hpayload
  exact ⟨opened, old, hopen, hchanges, hsafe⟩

end FileTable
end KeyTable
