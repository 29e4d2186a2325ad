import Mathlib
import KeyTable.Proofs.FileTable.Fresh
import KeyTable.Proofs.MemoryTable.InStep
import KeyTable.Proofs.MemoryTable.Refinement
import KeyTable.Proofs.Table.Reachable

/-!
# Both kinds of table are alike

A new file table that can be written, whether it has a file or not, starts with the same
buckets as a table in memory.  If both are given the same calls, they reply the same, with
one exception: a file table walks to count its records, and that parts the walks and the
cursors of the two.

* `Call.comparesWalks`, `Call.comparesCursors` — for how long they are apart.
* `perform_memory`, `perform_file` — a call other than `count` does to the records what it
  does to a table in memory, whatever the kind.
* `count_file` — a file table counts right, and is at the end of a walk then.
* `Pair.InStep.after`, `Pair.InStep.afterAll` — so two tables in step stay in step.
* `kinds_alike` — whatever the calls, a new table in memory and a fresh file table make the same
  of the next one.
-/

namespace KeyTable
namespace Table

open MemoryTable (Reply)

/-! ## Calls -/

/-- A call that tables of both kinds take. -/
inductive Call where
  /-- Fetch the value of a key. -/
  | fetch (key : Bytes)
  /-- Add a key or give it another value. -/
  | store (key : Bytes) (content : Content)
  /-- Add a key that is absent. -/
  | insert (key : Bytes) (content : Content)
  /-- Remove a key. -/
  | delete (key : Bytes)
  /-- Start the walk. -/
  | first
  /-- Carry the walk on. -/
  | next
  /-- Ask for the number of records. -/
  | count
  deriving DecidableEq

/-- Performs a call. -/
def perform (table : Table) (disk : Disk) : Call → Reply × Table × Disk
  | .fetch key =>
    let (answer, table) := table.fetch key
    (.value answer, table, disk)
  | .store key content =>
    let outcome := table.store disk key content
    (.value outcome.answer, outcome.table, outcome.disk)
  | .insert key content =>
    let outcome := table.insert disk key content
    (.value outcome.answer, outcome.table, outcome.disk)
  | .delete key =>
    let outcome := table.delete disk key
    (.done outcome.answer, outcome.table, outcome.disk)
  | .first =>
    let (entry, table) := table.first
    (.step entry, table, disk)
  | .next =>
    let (entry, table) := table.next
    (.step entry, table, disk)
  | .count =>
    let (number, table) := table.count
    (.count number, table, disk)

namespace Call

/-- The same call on a table in memory. -/
def onRecords : Call → MemoryTable.Call
  | .fetch key => .fetch key
  | .store key content => .store key content
  | .insert key content => .insert key content
  | .delete key => .delete key
  | .first => .first
  | .next => .next
  | .count => .count

/-- Are the walks of two tables to be in the same place after a call, if they are before
it as `walks` says?  Counting parts them, until they are started anew. -/
def comparesWalks (walks : Bool) : Call → Bool
  | .first => true
  | .count => false
  | _ => walks

/-- Is this the reply to a delete that has removed its key? -/
def isDone : Reply → Bool
  | .done answer => answer.isOk
  | _ => false

/-- Are the cursors to be in the same place after a call with this reply?  Counting parts
them, until a call sets them.  A step of a walk sets them to where the walks are, and so they
are compared as the walks are; a delete that finds nothing does not set them. -/
def comparesCursors (walks cursors : Bool) (reply : Reply) : Call → Bool
  | .count => false
  | .next => walks
  | .delete _ => cursors || isDone reply
  | _ => true

end Call

/-! ## One call -/

/-- A table in memory makes of a call what its records make of it. -/
theorem perform_memory (table : MemoryTable) (disk : Disk) (call : Call) :
    (memory table).perform disk call =
      ((table.perform call.onRecords).1, .memory (table.perform call.onRecords).2, disk) := by
  cases call <;> rfl

section File

variable {file : FileTable}

/-- So does a file table that can be written, unless it has to count them. -/
theorem perform_file (hwritable : file.readOnly = false) (hsound : file.memory.Sound)
    (disk : Disk) {call : Call} (hcall : call ≠ .count) :
    ∃ later after, (Table.file file).perform disk call =
        ((file.memory.perform call.onRecords).1, .file later, after) ∧
      later.memory = (file.memory.perform call.onRecords).2 ∧ later.readOnly = false := by
  cases call with
  | count => exact absurd rfl hcall
  | fetch key => exact ⟨(file.fetch key).2, disk, rfl, rfl, hwritable⟩
  | first => exact ⟨file.first.2, disk, rfl, rfl, hwritable⟩
  | next => exact ⟨file.next.2, disk, rfl, rfl, hwritable⟩
  | store key content =>
    have hanswer := FileTable.answer_store hwritable disk key content
    have hmemory := file.memory_store disk key content
    rw [if_neg (ne_true_of_eq_false hwritable)] at hmemory
    have hopen := (file.readOnly_store disk key content).trans hwritable
    exact ⟨_, _, congrArg (fun answer => (Reply.value answer, _)) hanswer, hmemory, hopen⟩
  | insert key content =>
    have hanswer := FileTable.answer_insert hwritable disk key content
    have hmemory := file.memory_insert disk key content
    rw [if_neg (ne_true_of_eq_false hwritable)] at hmemory
    have hopen := (file.readOnly_insert disk key content).trans hwritable
    exact ⟨_, _, congrArg (fun answer => (Reply.value answer, _)) hanswer, hmemory, hopen⟩
  | delete key =>
    have hanswer := FileTable.answer_delete hwritable hsound disk key
    have hmemory := FileTable.memory_delete hsound disk key
    rw [if_neg (ne_true_of_eq_false hwritable)] at hmemory
    have hopen := (file.readOnly_delete disk key).trans hwritable
    exact ⟨_, _, congrArg (fun answer => (Reply.done answer, _)) hanswer, hmemory, hopen⟩

/-! ## Counting -/

/-- A walk that is not stopped, and has come to the first of these records, comes to its end:
there is no record ahead of it then, and none at the cursor. -/
theorem visitFrom_end (steps : Nat) (entries : List Entry) (hcurrent : file.current = entries.head?)
    (hahead : (Table.file file).ahead = entries.tail) (hsteps : entries.length ≤ steps) :
    ∃ last : FileTable,
      (visitFrom (fun _ => false) steps (entries.head?, .file file)).table = .file last ∧
        last.readOnly = file.readOnly ∧ last.current = none ∧ (Table.file last).ahead = [] := by
  induction entries generalizing steps file with
  | nil => cases steps <;> exact ⟨file, rfl, rfl, hcurrent, hahead⟩
  | cons entry entries ih =>
    cases steps with
    | zero => exact absurd hsteps (Nat.not_succ_le_zero _)
    | succ steps =>
      obtain ⟨hhead, htail, -⟩ := next_spec (.file file)
      rw [hahead, List.tail_cons] at hhead htail
      have hnext : (Table.file file).next = (entries.head?, .file file.next.2) := Prod.ext hhead rfl
      -- a step leaves the cursor at the record that it answers with
      have hcursor : file.next.2.current = entries.head? := hhead
      obtain ⟨last, hlast, hopen, hnone, hnil⟩ :=
        ih steps hcursor htail (Nat.le_of_succ_le_succ hsteps)
      refine ⟨last, ?_, hopen, hnone, hnil⟩
      rw [← hnext] at hlast
      exact hlast

/-- A file table counts its records right.  It keeps them, but the walk is at its end and the
cursor is cleared then. -/
theorem count_file (hsound : file.memory.Sound) :
    ∃ last : FileTable, (Table.file file).count = (file.memory.contents.size, .file last) ∧
      last.readOnly = file.readOnly ∧ MemoryTable.SameRecords last.memory file.memory ∧
      last.current = none ∧ last.next.1 = none := by
  obtain ⟨hhead, htail, -⟩ := first_spec (.file file)
  have hfirst : (Table.file file).first = (file.memory.entries.head?, .file file.first.2) :=
    Prod.ext hhead rfl
  have hsteps : file.memory.entries.length ≤ file.memory.records.length + 1 := by
    rw [MemoryTable.entries, List.length_map]
    exact Nat.le_succ _
  have hcursor : file.first.2.current = file.memory.entries.head? := hhead
  obtain ⟨last, hlast, hopen, hnone, hnil⟩ := visitFrom_end _ _ hcursor htail hsteps
  rw [← hfirst] at hlast
  obtain ⟨hlisted, hsame⟩ := each_spec (.file file)
  have htable : (Table.file file).each.2 = .file last := hlast
  rw [htable] at hsame
  have hnumber : (Table.file file).each.1.length = file.memory.contents.size := by
    rw [hlisted, hsound.size_contents]
    exact hsound.length_entries
  refine ⟨last, Prod.ext hnumber htable, hopen, hsame, hnone, ?_⟩
  have hend := (next_spec (.file last)).1
  rw [hnil] at hend
  exact hend

end File

/-! ## Two tables in step -/

/-- Tables in step reply the same to a call that does not count, and stay in step. -/
theorem perform_inStep {walks cursors : Bool} {table other : MemoryTable}
    (h : table.InStep walks cursors other) {call : Call} (hcall : call ≠ .count) :
    ((call = .next → walks = true) →
      (table.perform call.onRecords).1 = (other.perform call.onRecords).1) ∧
    MemoryTable.InStep (call.comparesWalks walks)
      (call.comparesCursors walks cursors (table.perform call.onRecords).1)
      (table.perform call.onRecords).2 (other.perform call.onRecords).2 := by
  cases call with
  | count => exact absurd rfl hcall
  | fetch key =>
    obtain ⟨hanswer, hfetched⟩ := h.fetch key
    exact ⟨fun _ => congrArg Reply.value hanswer, hfetched⟩
  | store key content =>
    obtain ⟨hanswer, hstored⟩ := h.store key content
    exact ⟨fun _ => congrArg Reply.value hanswer, hstored⟩
  | insert key content =>
    obtain ⟨hanswer, hinserted⟩ := h.insert key content
    exact ⟨fun _ => congrArg Reply.value hanswer, hinserted⟩
  | delete key =>
    obtain ⟨hanswer, hdeleted⟩ := h.delete key
    exact ⟨fun _ => congrArg Reply.done hanswer, hdeleted⟩
  | first =>
    obtain ⟨hanswer, hstarted⟩ := h.first
    exact ⟨fun _ => congrArg Reply.step hanswer, hstarted⟩
  | next =>
    obtain ⟨hanswer, hmoved⟩ := h.next
    exact ⟨fun hwalks => congrArg Reply.step (hanswer (hwalks rfl)), hmoved⟩

/-- A table of each kind, which are given the same calls. -/
structure Pair where
  /-- The table in memory. -/
  memory : Table
  /-- The table that can have a log file. -/
  file : Table
  /-- The disk. -/
  disk : Disk
  /-- Are the walks to be in the same place? -/
  walks : Bool
  /-- Are the cursors to be in the same place? -/
  cursors : Bool

namespace Pair

/-- What the table in memory makes of a call. -/
def onMemory (pair : Pair) (call : Call) : Reply × Table × Disk :=
  pair.memory.perform pair.disk call

/-- What the file table makes of a call. -/
def onFile (pair : Pair) (call : Call) : Reply × Table × Disk := pair.file.perform pair.disk call

/-- Gives both tables a call. -/
def after (pair : Pair) (call : Call) : Pair where
  memory := (pair.onMemory call).2.1
  file := (pair.onFile call).2.1
  disk := (pair.onFile call).2.2
  walks := call.comparesWalks pair.walks
  cursors := call.comparesCursors pair.walks pair.cursors (pair.onMemory call).1

/-- Gives both tables any number of calls, one after the other. -/
def afterAll (pair : Pair) (calls : List Call) : Pair := calls.foldl after pair

variable {pair : Pair} {call : Call}

/-- Are the tables in step, as far as they are to be? -/
structure InStep (pair : Pair) (memory : MemoryTable) (file : FileTable) : Prop where
  /-- One table is in memory. -/
  memory_eq : pair.memory = .memory memory
  /-- The other one can have a log file. -/
  file_eq : pair.file = .file file
  /-- It can be changed. -/
  writable : file.readOnly = false
  /-- The records are laid out as they should be. -/
  sound : file.memory.Sound
  /-- They are the same in both tables, and so are walks and cursors. -/
  inStep : memory.InStep pair.walks pair.cursors file.memory

section InStep

variable {memory : MemoryTable} {file : FileTable}

/-- A call that does not count is replied to by both in the same way. -/
theorem InStep.after_of_ne_count (h : pair.InStep memory file) (hcall : call ≠ .count) :
    ((call = .next → pair.walks = true) → (pair.onMemory call).1 = (pair.onFile call).1) ∧
      ∃ table later, (pair.after call).InStep table later := by
  obtain ⟨later, disk, hfile, hlater, hopen⟩ := perform_file h.writable h.sound pair.disk hcall
  obtain ⟨hreply, hstep⟩ := perform_inStep h.inStep hcall
  have hmemory := perform_memory memory pair.disk call
  rw [← h.memory_eq] at hmemory
  rw [← h.file_eq] at hfile
  have hsound : later.memory.Sound := by
    rw [hlater]
    exact (MemoryTable.perform_spec h.sound _).1
  have hreplied : (pair.onMemory call).1 = (memory.perform call.onRecords).1 :=
    congrArg Prod.fst hmemory
  refine ⟨fun hwalks => ?_, (memory.perform call.onRecords).2, later, ?_, ?_, hopen, hsound, ?_⟩
  · rw [hreplied, onFile, hfile]
    exact hreply hwalks
  · exact congrArg (·.2.1) hmemory
  · exact congrArg (·.2.1) hfile
  · show MemoryTable.InStep _ (call.comparesCursors _ _ (pair.onMemory call).1) _ _
    rw [hreplied, hlater]
    exact hstep

/-- Both tables count all records.  The file table has come to the end of a walk by that. -/
theorem InStep.after_count (h : pair.InStep memory file) :
    (pair.onMemory .count).1 = .count memory.contents.size ∧
      (pair.onFile .count).1 = .count memory.contents.size ∧
      ∃ later, (pair.after .count).InStep memory later ∧ later.current = none ∧
        later.next.1 = none := by
  obtain ⟨later, hcount, hopen, hsame, hcurrent, hend⟩ := count_file h.sound
  have hmemory := perform_memory memory pair.disk .count
  rw [← h.memory_eq] at hmemory
  have hfile : pair.onFile .count = (.count file.memory.contents.size, .file later, pair.disk) := by
    simp only [onFile, h.file_eq, perform, hcount]
  have hsound : memory.Sound := h.sound.congr h.inStep.same
  refine ⟨?_, ?_, later, ⟨?_, ?_, hopen.trans h.writable, h.sound.congr hsame, ?_⟩, hcurrent, hend⟩
  · rw [onMemory, hmemory, hsound.size_contents]
    rfl
  · rw [hfile, h.inStep.same.contents_eq]
  · exact congrArg (·.2.1) hmemory
  · exact congrArg (·.2.1) hfile
  · exact ⟨⟨h.inStep.same.buckets.trans hsame.buckets.symm,
      h.inStep.same.count.trans hsame.count.symm⟩, nofun, nofun⟩

/-- Whatever the call, the tables stay in step. -/
theorem InStep.after (h : pair.InStep memory file) (call : Call) :
    ∃ table later, (pair.after call).InStep table later := by
  by_cases hcall : call = .count
  · subst hcall
    obtain ⟨-, -, later, hlater, -⟩ := h.after_count
    exact ⟨memory, later, hlater⟩
  · exact (h.after_of_ne_count hcall).2

/-- So they do over any number of calls. -/
theorem InStep.afterAll (h : pair.InStep memory file) (calls : List Call) :
    ∃ table later, (pair.afterAll calls).InStep table later := by
  induction calls generalizing pair memory file with
  | nil => exact ⟨memory, file, h⟩
  | cons call calls ih =>
    obtain ⟨table, later, hafter⟩ := h.after call
    exact ih hafter

/-- Tables in step are visited in the same order. -/
theorem InStep.each_eq (h : pair.InStep memory file) : pair.memory.each.1 = pair.file.each.1 := by
  rw [(each_spec pair.memory).1, (each_spec pair.file).1, h.memory_eq, h.file_eq]
  exact h.inStep.same.entries_eq

/-- Cursors in step show the same. -/
theorem InStep.current_eq (h : pair.InStep memory file) (hcursors : pair.cursors = true) :
    pair.memory.current = pair.file.current := by
  have hstep := h.inStep
  rw [hcursors] at hstep
  rw [current, current, h.memory_eq, h.file_eq]
  exact hstep.current_eq

end InStep

/-- What both tables make of a call. -/
structure Alike (pair : Pair) (call : Call) : Prop where
  /-- They reply the same, unless the call is a step of walks that are apart. -/
  reply : (call = .next → pair.walks = true) → (pair.onMemory call).1 = (pair.onFile call).1
  /-- Their records are visited in the same order afterwards. -/
  order : (pair.after call).memory.each.1 = (pair.after call).file.each.1
  /-- The same record is the current one afterwards, unless the cursors are apart. -/
  current : (pair.after call).cursors = true →
    (pair.after call).memory.current = (pair.after call).file.current
  /-- The table in memory counts all records. -/
  counted : call = .count →
    (pair.onMemory call).1 = .count pair.memory.inMemory.contents.size
  /-- So does the file table. -/
  walked : call = .count → (pair.onFile call).1 = .count pair.file.inMemory.contents.size
  /-- Its cursor is cleared by that, and its walk is at the end. -/
  parted : call = .count →
    (pair.after call).file.current = none ∧ (pair.after call).file.next.1 = none

/-- Tables in step make the same of every call. -/
theorem InStep.alike {memory : MemoryTable} {file : FileTable} (h : pair.InStep memory file)
    (call : Call) : pair.Alike call := by
  obtain ⟨table, later, hafter⟩ := h.after call
  by_cases hcall : call = .count
  · subst hcall
    obtain ⟨hmemory, hfile, last, hlast, hcurrent, hend⟩ := h.after_count
    refine ⟨fun _ => hmemory.trans hfile.symm, hafter.each_eq, hafter.current_eq, fun _ => ?_,
      fun _ => ?_, fun _ => ?_⟩
    · rw [hmemory, h.memory_eq]
      rfl
    · rw [hfile, h.file_eq, h.inStep.same.contents_eq]
      rfl
    · rw [hlast.file_eq]
      exact ⟨hcurrent, hend⟩
  · exact ⟨(h.after_of_ne_count hcall).1, hafter.each_eq, hafter.current_eq,
      fun hcount => absurd hcount hcall, fun hcount => absurd hcount hcall,
      fun hcount => absurd hcount hcall⟩

end Pair

/-! ## New tables -/

variable {settings : Settings} {file : FileTable}

/-- A new table in memory and a new file table. -/
def Pair.start (settings : Settings) (file : FileTable) (disk : Disk) : Pair :=
  ⟨.memory (.ofSettings settings), .file file, disk, true, true⟩

theorem Pair.inStep_start (h : file.Fresh settings) (disk : Disk) :
    (start settings file disk).InStep (.ofSettings settings) file := by
  obtain ⟨hmemory, hwritable⟩ := h.spec
  refine ⟨rfl, rfl, hwritable, ?_, ?_⟩
  · rw [hmemory]
    exact MemoryTable.sound_withBuckets _
  · rw [hmemory]
    exact .refl _

/-- After the same calls, a table in memory and a file table make the same of the next one. -/
theorem kinds_alike (h : file.Fresh settings) (disk : Disk) (calls : List Call) (call : Call) :
    ((Pair.start settings file disk).afterAll calls).Alike call := by
  obtain ⟨memory, later, hstep⟩ := (Pair.inStep_start h disk).afterAll calls
  exact hstep.alike call

/-- A table in a file that was made for it has counted a record; then the walks are apart
until they are started anew. -/
theorem kinds_alike_counted :
    let settings : Settings := { initialBuckets := 2 }
    let opening := FileTable.openAt .empty ⟨"t"⟩ .creating settings
    let calls : List Call := [.insert [1] (.given [2]), .count]
    ∃ file, opening.answer = .ok file ∧
      ((Pair.start settings file opening.disk).afterAll calls).walks = false ∧
      ((Pair.start settings file opening.disk).afterAll calls).Alike .first := by
  intro settings opening calls
  let file : FileTable := ⟨.withBuckets 2, some (.onFile 0 (.offset 6) (.every 64)), some ⟨"t"⟩,
    false, .every 64, {}⟩
  have hopen : opening.answer = .ok file := by cbv
  have hmissing : ∀ number, Disk.empty.fileNumber ⟨"t"⟩ = .ok number →
      Disk.empty.contents number = [] := fun _ _ => rfl
  have hfresh : file.Fresh settings := .opened rfl (.inr hmissing) hopen
  exact ⟨file, hopen, rfl, kinds_alike hfresh opening.disk calls .first⟩

end Table
end KeyTable
