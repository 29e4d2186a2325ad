import KeyTable.Proofs.FileTable.Compaction
import KeyTable.Table.Basic

/-!
# Sessions

An open file table and the disk, and the calls on it.  A call that succeeds in
changing the table logs the change, and no other does (`made`).

* `effect_perform` — all that a call other than compaction can do: to log one change
  and make it, to sync the log, or to answer from memory.
* `Mirrors.perform` — a table that mirrors its log does so after every call.
-/

namespace KeyTable
namespace FileTable

open Log (Frame ofFrames)

/-- An open file table, and the disk. -/
structure Session where
  /-- The table. -/
  table : FileTable
  /-- The disk. -/
  disk : Disk

/-- A call on a file table. -/
inductive Call where
  /-- Add a key or give it another value. -/
  | store (key : Bytes) (content : Content)
  /-- Add a key that is absent. -/
  | insert (key : Bytes) (content : Content)
  /-- Remove a key. -/
  | delete (key : Bytes)
  /-- Fetch the value of a key. -/
  | fetch (key : Bytes)
  /-- Start the walk. -/
  | first
  /-- Carry the walk on. -/
  | next
  /-- Force the log to the disk. -/
  | sync
  /-- Replace the log by one that holds each record once. -/
  | compact

/-- The change that a call asks for, if it asks for one. -/
def Call.change? : Call → Option Change
  | .store key content => some (.store key content.toBytes)
  | .insert key content => some (.store key content.toBytes)
  | .delete key => some (.delete key)
  | _ => none

namespace Session

/-- Makes a call.  The answer is whether it succeeded, without the value. -/
def perform (session : Session) : Call → Except Fault Unit × Session
  | .store key content =>
    let outcome := session.table.store session.disk key content
    (outcome.answer.map fun _ => (), ⟨outcome.table, outcome.disk⟩)
  | .insert key content =>
    let outcome := session.table.insert session.disk key content
    (outcome.answer.map fun _ => (), ⟨outcome.table, outcome.disk⟩)
  | .delete key =>
    let outcome := session.table.delete session.disk key
    (outcome.answer, ⟨outcome.table, outcome.disk⟩)
  | .fetch key =>
    let (answer, table) := session.table.fetch key
    (answer.map fun _ => (), ⟨table, session.disk⟩)
  | .first => (.ok (), ⟨session.table.first.2, session.disk⟩)
  | .next => (.ok (), ⟨session.table.next.2, session.disk⟩)
  | .sync =>
    let (table, disk) := session.table.sync session.disk
    (.ok (), ⟨table, disk⟩)
  | .compact =>
    let outcome := session.table.compact session.disk
    (outcome.answer, ⟨outcome.table, outcome.disk⟩)

/-- The change that a call makes to the table: the one it asks for, if it succeeds. -/
def made? (session : Session) (call : Call) : Option Change :=
  if (session.perform call).1.isOk then call.change? else none

/-- Number of frames in the log after a call, if there were so many before it: a change
adds one, and compaction leaves one for each key. -/
def framesAfter (session : Session) (call : Call) (frames : Nat) : Nat :=
  if (session.perform call).1.isOk then
    match call with
    | .store _ _ | .insert _ _ | .delete _ => frames + 1
    | .compact => session.table.memory.contents.size
    | _ => frames
  else frames

/-- Makes calls one after the other. -/
def run (session : Session) : List Call → Session
  | [] => session
  | call :: calls => (session.perform call).2.run calls

/-- Number of frames in the log after a run of calls, if there were so many before it. -/
def framesAfterRun (session : Session) : List Call → Nat → Nat
  | [], frames => frames
  | call :: calls, frames =>
    (session.perform call).2.framesAfterRun calls (session.framesAfter call frames)

/-- The bytes in the file of the log. -/
def written (session : Session) : Bytes :=
  match session.table.log with
  | none => []
  | some log => session.disk.contents log.file

/-- The bytes that are still buffered. -/
def buffered (session : Session) : Bytes :=
  match session.table.log with
  | none => []
  | some log => log.pending

end Session

/-! ## One call -/

variable {path : Path} {session : Session} {log : Log.Appender} {frames : List Frame} {call : Call}

/-- What a call other than compaction can do to a session whose table has this log. -/
inductive Effect (session : Session) (log : Log.Appender) : Call → Option Change → Session → Prop
  /-- A change is logged and then made. -/
  | logged {call : Call} {change : Change} {memory : MemoryTable} (sound : memory.Sound)
      (contents : memory.contents = session.table.memory.contents.apply change) :
      Effect session log call (some change)
        ⟨{ session.table with
            memory, log := some (log.append session.disk (Log.encodeFrame change)).1 },
          (log.append session.disk (Log.encodeFrame change)).2⟩
  /-- The log is synced. -/
  | synced :
      Effect session log .sync none
        ⟨{ session.table with log := some (log.sync session.disk).1 }, (log.sync session.disk).2⟩
  /-- The answer comes from memory. -/
  | answered {call : Call} {memory : MemoryTable} (sound : memory.Sound)
      (contents : memory.contents = session.table.memory.contents) (call_ne : call ≠ .sync) :
      Effect session log call none ⟨{ session.table with memory }, session.disk⟩

theorem commit_eq {α : Type} {table : FileTable} (h : table.log = some log) (disk : Disk)
    (change : Change) (operation : MemoryTable → Except Fault α × MemoryTable) :
    table.commit disk change operation =
      ⟨(operation table.memory).1,
        { table with
          memory := (operation table.memory).2
          log := some (log.append disk (Log.encodeFrame change)).1 },
        (log.append disk (Log.encodeFrame change)).2⟩ := by
  unfold commit record
  rw [h]

theorem made?_of_ok (h : (session.perform call).1 = .ok ()) :
    session.made? call = call.change? := by
  rw [Session.made?, h]
  rfl

theorem made?_of_error {fault : Fault} (h : (session.perform call).1 = .error fault) :
    session.made? call = none := by
  rw [Session.made?, h]
  rfl

theorem made?_of_change?_eq_none (h : call.change? = none) : session.made? call = none := by
  rw [Session.made?, h]
  split <;> rfl

/-- The change that a call makes is the one that it asks for. -/
theorem change?_of_made? {change : Change} (h : session.made? call = some change) :
    call.change? = some change := by
  unfold Session.made? at h
  split at h
  · exact h
  · cases h

/-- A call that succeeds in a change has logged it. -/
theorem effect_of_ok {change : Change} {memory : MemoryTable} (hchange : call.change? = some change)
    (hperform : session.perform call =
      (.ok (), ⟨{ session.table with
        memory, log := some (log.append session.disk (Log.encodeFrame change)).1 },
        (log.append session.disk (Log.encodeFrame change)).2⟩))
    (hsound : memory.Sound)
    (hcontents : memory.contents = session.table.memory.contents.apply change) :
    Effect session log call (session.made? call) (session.perform call).2 := by
  have hmade : session.made? call = some change :=
    (made?_of_ok (congrArg Prod.fst hperform)).trans hchange
  rw [hmade, hperform]
  exact .logged hsound hcontents

/-- A call that is refused has not touched the log. -/
theorem effect_of_error (fault : Fault) {memory : MemoryTable}
    (hperform : session.perform call =
      (.error fault, ⟨{ session.table with memory }, session.disk⟩))
    (hsound : memory.Sound) (hcontents : memory.contents = session.table.memory.contents)
    (hcall : call ≠ .sync) :
    Effect session log call (session.made? call) (session.perform call).2 := by
  have hmade : session.made? call = none := made?_of_error (congrArg Prod.fst hperform)
  rw [hmade, hperform]
  exact .answered hsound hcontents hcall

section Effects

variable (hlog : session.table.log = some log) (hwritable : session.table.readOnly = false)
  (hsound : session.table.memory.Sound)
include hlog hwritable hsound

theorem effect_store (key : Bytes) (content : Content) :
    Effect session log (.store key content) (session.made? (.store key content))
      (session.perform (.store key content)).2 := by
  obtain ⟨hanswer, hcontents⟩ := hsound.store_spec key content
  refine effect_of_ok rfl ?_ (hsound.store key content) hcontents
  simp only [Session.perform, FileTable.store, hwritable, Bool.false_eq_true, if_false,
    commit_eq hlog, hanswer, Except.map]

theorem effect_insert (key : Bytes) (content : Content) :
    Effect session log (.insert key content) (session.made? (.insert key content))
      (session.perform (.insert key content)).2 := by
  have hcontains := hsound.contains_eq key
  by_cases hmem : key ∈ session.table.memory.contents
  · obtain ⟨hanswer, hcontents⟩ := hsound.insert_of_mem hmem content
    rw [decide_eq_true hmem] at hcontains
    refine effect_of_error .alreadyExists ?_ (hsound.insert key content) hcontents nofun
    simp only [Session.perform, FileTable.insert, hwritable, Bool.false_eq_true, if_false,
      hcontains, if_true, hanswer, Except.map]
  · obtain ⟨hanswer, hcontents⟩ := hsound.insert_of_notMem hmem content
    rw [decide_eq_false hmem] at hcontains
    refine effect_of_ok rfl ?_ (hsound.insert key content) hcontents
    simp only [Session.perform, FileTable.insert, hwritable, Bool.false_eq_true, if_false,
      hcontains, commit_eq hlog, hanswer, Except.map]

theorem effect_delete (key : Bytes) :
    Effect session log (.delete key) (session.made? (.delete key))
      (session.perform (.delete key)).2 := by
  have hcontains := hsound.contains_eq key
  by_cases hmem : key ∈ session.table.memory.contents
  · obtain ⟨hanswer, hcontents⟩ := hsound.delete_of_mem hmem
    rw [decide_eq_true hmem] at hcontains
    refine effect_of_ok rfl ?_ (hsound.delete key) hcontents
    simp only [Session.perform, FileTable.delete, hwritable, Bool.false_eq_true, if_false,
      hcontains, if_true, commit_eq hlog, hanswer]
  · rw [decide_eq_false hmem] at hcontains
    refine effect_of_error .notFound ?_ hsound rfl (by simp)
    simp only [Session.perform, FileTable.delete, hwritable, Bool.false_eq_true, if_false,
      hcontains]
    rw [← hwritable]

/-- All that a call other than compaction can do. -/
theorem effect_perform (hcall : call ≠ .compact) :
    Effect session log call (session.made? call) (session.perform call).2 := by
  cases call with
  | store key content => exact effect_store hlog hwritable hsound key content
  | insert key content => exact effect_insert hlog hwritable hsound key content
  | delete key => exact effect_delete hlog hwritable hsound key
  | fetch key =>
    rw [made?_of_change?_eq_none rfl]
    exact .answered (hsound.fetch key) (MemoryTable.sameRecords_fetch _ key).contents_eq nofun
  | first =>
    rw [made?_of_change?_eq_none rfl]
    exact .answered hsound.first (MemoryTable.sameRecords_first _).contents_eq nofun
  | next =>
    rw [made?_of_change?_eq_none rfl]
    exact .answered hsound.next (MemoryTable.sameRecords_next _).contents_eq nofun
  | sync =>
    rw [made?_of_change?_eq_none rfl]
    show Effect session log _ _
      ⟨(session.table.sync session.disk).1, (session.table.sync session.disk).2⟩
    rw [sync_eq hlog]
    exact .synced
  | compact => exact absurd rfl hcall

end Effects

/-! ## Mirroring -/

/-- The frames that a call adds to the log. -/
def framesOf (change : Option Change) : List Frame := change.toList.map Frame.ofChange

theorem framesAfter_eq (session : Session) (hcall : call ≠ .compact) (count : Nat) :
    session.framesAfter call count = count + (framesOf (session.made? call)).length := by
  unfold Session.framesAfter framesOf Session.made?
  cases (session.perform call).1.isOk with
  | false => rfl
  | true =>
    cases call with
    | compact => exact absurd rfl hcall
    | _ => rfl

/-- A table that mirrors its log does so after every call that is not compaction, and the
log has come on by the frame of the change that was made, if one was. -/
theorem Mirrors.effect (h : Mirrors path session.table session.disk log frames)
    {change : Option Change} {after : Session} (heffect : Effect session log call change after)
    (hpayload : ∀ made ∈ change, (Log.payload made).length < 2 ^ 32) :
    ∃ next, Mirrors path after.table after.disk next (frames ++ framesOf change) ∧
      Log.Appender.Advances (log, session.disk) (Log.joined (framesOf change))
        (next, after.disk) := by
  cases heffect with
  | @logged call change memory sound contents =>
    have hadvance := Log.Appender.advances_append h.fits (Log.encodeFrame change)
    have hframe : Log.encodeFrame change = Log.joined [Frame.ofChange change] :=
      (Log.joined_singleton (Frame.ofChange change)).symm
    nth_rewrite 1 [hframe] at hadvance
    refine ⟨_, h.advance [Frame.ofChange change] hadvance ?_ sound contents, hadvance⟩
    intro frame hframe
    rw [List.mem_singleton.mp hframe]
    exact Log.Frame.intact_ofChange (hpayload change rfl)
  | synced =>
    have hadvance := Log.Appender.advances_sync h.fits
    exact ⟨_, h.advance [] hadvance nofun h.sound rfl, hadvance⟩
  | @answered call memory sound contents =>
    have hadvance := Log.Appender.Advances.refl h.fits
    have hmirrors := h.advance [] hadvance nofun sound contents
    rw [← h.hasLog] at hmirrors
    exact ⟨log, hmirrors, hadvance⟩

/-- A table that mirrors its log does so after every call. -/
theorem Mirrors.perform (h : Mirrors path session.table session.disk log frames)
    (hpayload : ∀ change ∈ session.made? call, (Log.payload change).length < 2 ^ 32) :
    ∃ next more,
      Mirrors path (session.perform call).2.table (session.perform call).2.disk next more ∧
      more.length = session.framesAfter call frames.length := by
  by_cases hcall : call = .compact
  · subst hcall
    unfold Session.framesAfter
    rcases h.compact with ⟨error, hanswer, hmirrors⟩ | ⟨fresh, hanswer, hmirrors⟩
    · have hfailed : (session.perform .compact).1 = .error (.disk error) := hanswer
      refine ⟨_, frames, hmirrors, ?_⟩
      rw [hfailed]
      rfl
    · have hok : (session.perform .compact).1 = .ok () := hanswer
      refine ⟨fresh, _, hmirrors, ?_⟩
      rw [hok, length_recordFrames h.sound]
      rfl
  · have heffect := effect_perform h.hasLog h.writable h.sound hcall
    obtain ⟨next, hmirrors, -⟩ := h.effect heffect hpayload
    refine ⟨next, _, hmirrors, ?_⟩
    rw [framesAfter_eq session hcall, List.length_append]

end FileTable
end KeyTable
