import Mathlib.Data.List.TakeWhile
import KeyTable.Proofs.FileTable.Memory
import KeyTable.Proofs.MemoryTable.Walking
import KeyTable.Table.Basic

/-!
# Tables that a caller can come by

Every table of either kind is made or opened, and then worked on with the
operations that its kind has.  `Reachable` says so of tables whose settings were
checked, and `Made` of any tables; all proofs about them start from their records
being `Sound`.

* `fetch_eq`, `first_eq`, `next_eq` — looking up and walking are done by the table
  in memory, whatever the kind.
* `visit_spec` — a whole walk passes all records, in their order, up to the one
  that is to stop it; it has steps enough to come to an end.
* `Step.worked` — what an operation can do to the records.
* `Step.sound`, `Made.sound` — every operation leaves the records sound, and so they
  are in every table.
-/

namespace KeyTable
namespace Table

/-! ## Looking up and walking -/

theorem fetch_eq (table : Table) (key : Bytes) :
    (table.fetch key).1 = (table.inMemory.fetch key).1 ∧
      (table.fetch key).2.inMemory = (table.inMemory.fetch key).2 := by
  cases table <;> exact ⟨rfl, rfl⟩

/-- Looking up answers from the contents. -/
theorem fetch_eq_found {table : Table} (h : table.inMemory.Sound) (key : Bytes) :
    table.fetch key =
      (MemoryTable.found (table.inMemory.contents.lookup key), (table.fetch key).2) :=
  Prod.ext ((table.fetch_eq key).1.trans (h.fetch_spec key).1) rfl

/-- Looking up changes no record. -/
theorem sameRecords_fetch (table : Table) (key : Bytes) :
    MemoryTable.SameRecords (table.fetch key).2.inMemory table.inMemory :=
  (table.fetch_eq key).2 ▸ table.inMemory.sameRecords_fetch key

theorem first_eq (table : Table) :
    table.first.1 = table.inMemory.first.1 ∧
      table.first.2.inMemory = table.inMemory.first.2 := by
  cases table <;> exact ⟨rfl, rfl⟩

theorem next_eq (table : Table) :
    table.next.1 = table.inMemory.next.1 ∧ table.next.2.inMemory = table.inMemory.next.2 := by
  cases table <;> exact ⟨rfl, rfl⟩

/-- The records that a walk has still to visit. -/
def ahead (table : Table) : List Entry :=
  (MemoryTable.ahead table.inMemory.buckets table.inMemory.walk).map Record.entry

theorem first_spec (table : Table) :
    table.first.1 = table.inMemory.entries.head? ∧
      table.first.2.ahead = table.inMemory.entries.tail ∧
      MemoryTable.SameRecords table.first.2.inMemory table.inMemory := by
  obtain ⟨hanswer, hmemory⟩ := first_eq table
  obtain ⟨hhead, htail⟩ := table.inMemory.first_spec
  have hsame := table.inMemory.sameRecords_first
  refine ⟨hanswer.trans hhead, ?_, hmemory ▸ hsame⟩
  rw [ahead, hmemory, hsame.buckets, htail, List.map_tail]
  rfl

theorem next_spec (table : Table) :
    table.next.1 = table.ahead.head? ∧ table.next.2.ahead = table.ahead.tail ∧
      MemoryTable.SameRecords table.next.2.inMemory table.inMemory := by
  obtain ⟨hanswer, hmemory⟩ := next_eq table
  obtain ⟨hhead, htail⟩ := table.inMemory.next_spec
  have hsame := table.inMemory.sameRecords_next
  refine ⟨?_, ?_, hmemory ▸ hsame⟩
  · rw [hanswer, hhead, ahead, List.head?_map]
  · rw [ahead, hmemory, hsame.buckets, htail, List.map_tail]
    rfl

/-! ## Whole walks -/

/-- A walk that has come to the first of these records passes them up to the one
that is to stop it, if it may take that many steps. -/
theorem visitFrom_spec (stop : Entry → Bool) (steps : Nat) (entries : List Entry)
    (table : Table) (hahead : table.ahead = entries.tail) (hsteps : entries.length ≤ steps) :
    (visitFrom stop steps (entries.head?, table)).passed = entries.takeWhile (!stop ·) ∧
      (visitFrom stop steps (entries.head?, table)).stoppedBy = entries.find? stop ∧
      MemoryTable.SameRecords (visitFrom stop steps (entries.head?, table)).table.inMemory
        table.inMemory := by
  induction entries generalizing steps table with
  | nil => cases steps <;> exact ⟨rfl, rfl, rfl, rfl⟩
  | cons entry entries ih =>
    cases steps with
    | zero => exact absurd hsteps (Nat.not_succ_le_zero _)
    | succ steps =>
      rw [List.head?_cons, visitFrom]
      by_cases hstop : stop entry = true
      · rw [if_pos hstop, List.takeWhile_cons_of_neg (by simp [hstop]),
          List.find?_cons_of_pos hstop]
        exact ⟨rfl, rfl, rfl, rfl⟩
      · obtain ⟨hhead, htail, hsame⟩ := next_spec table
        rw [hahead, List.tail_cons] at hhead htail
        have hnext : table.next = (entries.head?, table.next.2) := Prod.ext hhead rfl
        obtain ⟨hpassed, hstopped, hlast⟩ :=
          ih steps table.next.2 htail (Nat.le_of_succ_le_succ hsteps)
        rw [← hnext] at hpassed hstopped hlast
        rw [if_neg hstop, List.takeWhile_cons_of_pos (by simp [hstop]),
          List.find?_cons_of_neg hstop]
        exact ⟨congrArg (entry :: ·) hpassed, hstopped, hlast.trans hsame⟩

/-- A whole walk passes the records in their order, up to the one that is to stop
it, and leaves them as they are. -/
theorem visit_spec (table : Table) (stop : Entry → Bool) :
    (table.visit stop).passed = table.inMemory.entries.takeWhile (!stop ·) ∧
      (table.visit stop).stoppedBy = table.inMemory.entries.find? stop ∧
      MemoryTable.SameRecords (table.visit stop).table.inMemory table.inMemory := by
  obtain ⟨hhead, htail, hsame⟩ := first_spec table
  have hfirst : table.first = (table.inMemory.entries.head?, table.first.2) := Prod.ext hhead rfl
  have hsteps : table.inMemory.entries.length ≤ table.inMemory.records.length + 1 := by
    rw [MemoryTable.entries, List.length_map]
    exact Nat.le_succ _
  obtain ⟨hpassed, hstopped, hlast⟩ := visitFrom_spec stop _ _ table.first.2 htail hsteps
  rw [← hfirst] at hpassed hstopped hlast
  exact ⟨hpassed, hstopped, hlast.trans hsame⟩

/-- A walk that nothing stops lists all records in their order. -/
theorem each_spec (table : Table) :
    table.each.1 = table.inMemory.entries ∧
      MemoryTable.SameRecords table.each.2.inMemory table.inMemory := by
  obtain ⟨hpassed, -, hsame⟩ := table.visit_spec fun _ => false
  exact ⟨hpassed.trans (List.takeWhile_eq_self_iff.mpr fun _ _ => rfl), hsame⟩

/-! ## Reachable tables -/

/-- A table that can be come by.  The disk may be any at every step, for whatever
else a caller does is done in between. -/
inductive Reachable : Table → Prop
  | created {kind : Kind} {settings : Settings} {table : Table}
      (h : create kind settings = .ok table) : Reachable table
  | opened {kind : Kind} {disk : Disk} {path : Path} {flags : OpenFlags} {settings : Settings}
      {table : Table} (h : (openAt kind disk path flags settings).answer = .ok table) :
      Reachable table
  | fetch {table : Table} (h : Reachable table) (key : Bytes) : Reachable (table.fetch key).2
  | store {table : Table} (h : Reachable table) (disk : Disk) (key : Bytes) (content : Content) :
      Reachable (table.store disk key content).table
  | insert {table : Table} (h : Reachable table) (disk : Disk) (key : Bytes)
      (content : Content) : Reachable (table.insert disk key content).table
  | delete {table : Table} (h : Reachable table) (disk : Disk) (key : Bytes) :
      Reachable (table.delete disk key).table
  | first {table : Table} (h : Reachable table) : Reachable table.first.2
  | next {table : Table} (h : Reachable table) : Reachable table.next.2
  | patched {table : MemoryTable} (h : Reachable (.memory table)) (key bytes : Bytes) :
      Reachable (.memory (table.patch key bytes).2)
  | synced {table : FileTable} (h : Reachable (.file table)) (disk : Disk) :
      Reachable (.file (table.sync disk).1)
  | compacted {table : FileTable} (h : Reachable (.file table)) (disk : Disk) :
      Reachable (.file (table.compact disk).table)

/-! ## Tables made with any settings -/

/-- The second table is what one operation makes of the first. -/
inductive Step : Table → Table → Prop
  | fetch (table : Table) (key : Bytes) : Step table (table.fetch key).2
  | store (table : Table) (disk : Disk) (key : Bytes) (content : Content) :
      Step table (table.store disk key content).table
  | insert (table : Table) (disk : Disk) (key : Bytes) (content : Content) :
      Step table (table.insert disk key content).table
  | delete (table : Table) (disk : Disk) (key : Bytes) :
      Step table (table.delete disk key).table
  | first (table : Table) : Step table table.first.2
  | next (table : Table) : Step table table.next.2
  | patch (table : MemoryTable) (key bytes : Bytes) :
      Step (.memory table) (.memory (table.patch key bytes).2)
  | sync (table : FileTable) (disk : Disk) : Step (.file table) (.file (table.sync disk).1)
  | compact (table : FileTable) (disk : Disk) :
      Step (.file table) (.file (table.compact disk).table)

/-- A table that was made or opened, and then worked on.  Other than for `Reachable`, nobody
needs to have checked the settings that it was made with. -/
inductive Made : Table → Prop
  | memory (settings : Settings) : Made (.memory (.ofSettings settings))
  | file (settings : Settings) : Made (.file (.anonymous settings))
  | opened {kind : Kind} {disk : Disk} {path : Path} {flags : OpenFlags} {settings : Settings}
      {table : Table} (h : (openAt kind disk path flags settings).answer = .ok table) : Made table
  | step {table later : Table} (h : Made table) (hstep : Step table later) : Made later

section Opened

variable {kind : Kind} {disk : Disk} {path : Path} {flags : OpenFlags} {settings : Settings}
  {table : Table}

/-- Only file tables can be opened. -/
theorem exists_file_of_openAt (h : (openAt kind disk path flags settings).answer = .ok table) :
    ∃ file, table = .file file ∧
      (FileTable.openAt disk path flags settings).answer = .ok file := by
  cases kind with
  | memory => cases h
  | file =>
    simp only [openAt] at h
    cases hopen : (FileTable.openAt disk path flags settings).answer with
    | error fault => rw [hopen] at h; cases h
    | ok opened =>
      rw [hopen] at h
      cases h
      exact ⟨opened, rfl, rfl⟩

theorem sound_of_openAt (h : (openAt kind disk path flags settings).answer = .ok table) :
    table.inMemory.Sound := by
  obtain ⟨file, rfl, hopen⟩ := exists_file_of_openAt h
  exact FileTable.sound_of_openAt hopen

end Opened

/-- What one operation makes of the records in memory: it makes one of these changes to them, or
none. -/
inductive Worked (table : MemoryTable) : MemoryTable → Prop
  | looked {later : MemoryTable} (hsame : MemoryTable.SameRecords later table) : Worked table later
  | stored (key : Bytes) (content : Content) : Worked table (table.store key content).2
  | inserted (key : Bytes) (content : Content) : Worked table (table.insert key content).2
  | deleted (key : Bytes) : Worked table (table.delete key).2
  | patched (key bytes : Bytes) : Worked table (table.patch key bytes).2

/-- No operation does anything else to the records, whatever the kind of the table. -/
theorem Step.worked {table later : Table} (hstep : Step table later)
    (h : table.inMemory.Sound) : Worked table.inMemory later.inMemory := by
  cases hstep with
  | fetch table key => exact .looked (table.sameRecords_fetch key)
  | store table disk key content =>
    cases table with
    | memory table => exact .stored key content
    | file table =>
      show Worked table.memory (table.store disk key content).table.memory
      rw [FileTable.memory_store]
      split
      · exact .looked ⟨rfl, rfl⟩
      · exact .stored key content
  | insert table disk key content =>
    cases table with
    | memory table => exact .inserted key content
    | file table =>
      show Worked table.memory (table.insert disk key content).table.memory
      rw [FileTable.memory_insert]
      split
      · exact .looked ⟨rfl, rfl⟩
      · exact .inserted key content
  | delete table disk key =>
    cases table with
    | memory table => exact .deleted key
    | file table =>
      show Worked table.memory (table.delete disk key).table.memory
      rw [FileTable.memory_delete h]
      split
      · exact .looked ⟨rfl, rfl⟩
      · exact .deleted key
  | first => exact .looked (first_spec _).2.2
  | next => exact .looked (next_spec _).2.2
  | patch table key bytes => exact .patched key bytes
  | sync table disk =>
    show Worked table.memory (table.sync disk).1.memory
    rw [FileTable.memory_sync]
    exact .looked ⟨rfl, rfl⟩
  | compact table disk =>
    show Worked table.memory (table.compact disk).table.memory
    rw [FileTable.memory_compact]
    exact .looked ⟨rfl, rfl⟩

theorem Worked.sound {table later : MemoryTable} (hworked : Worked table later)
    (h : table.Sound) : later.Sound := by
  cases hworked with
  | looked hsame => exact h.congr hsame
  | stored key content => exact h.store key content
  | inserted key content => exact h.insert key content
  | deleted key => exact h.delete key
  | patched key bytes => exact h.patch key bytes

/-- No operation makes the records of a table unsound. -/
theorem Step.sound {table later : Table} (hstep : Step table later)
    (h : table.inMemory.Sound) : later.inMemory.Sound :=
  (hstep.worked h).sound h

/-- So the records of every table that was made are sound. -/
theorem Made.sound {table : Table} (h : Made table) : table.inMemory.Sound := by
  induction h with
  | memory settings => exact MemoryTable.sound_withBuckets _
  | file settings => exact MemoryTable.sound_withBuckets _
  | opened h => exact sound_of_openAt h
  | step _ hstep ih => exact hstep.sound ih

theorem made_of_create {kind : Kind} {settings : Settings} {table : Table}
    (h : create kind settings = .ok table) : Made table := by
  unfold create at h
  split at h
  · cases h
  · cases kind with
    | memory => cases h; exact .memory settings
    | file => cases h; exact .file settings

/-- Every table that can be come by was made. -/
theorem Reachable.made {table : Table} (h : Reachable table) : Made table := by
  induction h with
  | created h => exact made_of_create h
  | opened h => exact .opened h
  | fetch _ key ih => exact ih.step (.fetch _ key)
  | store _ disk key content ih => exact ih.step (.store _ disk key content)
  | insert _ disk key content ih => exact ih.step (.insert _ disk key content)
  | delete _ disk key ih => exact ih.step (.delete _ disk key)
  | first _ ih => exact ih.step (.first _)
  | next _ ih => exact ih.step (.next _)
  | patched _ key bytes ih => exact ih.step (.patch _ key bytes)
  | synced _ disk ih => exact ih.step (.sync _ disk)
  | compacted _ disk ih => exact ih.step (.compact _ disk)

theorem Reachable.sound {table : Table} (h : Reachable table) : table.inMemory.Sound :=
  h.made.sound

end Table
end KeyTable
