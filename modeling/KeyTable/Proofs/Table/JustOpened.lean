import KeyTable.Proofs.Log.Written
import KeyTable.Proofs.MemoryTable.Cursor
import KeyTable.Proofs.Table.Requests

/-!
# Tables that were just opened

To open a file table is to make the changes of its log to an empty table, and the cursor is left
where they leave it: on the record that was stored last, unless a key was removed since then.
So a table that was just opened can show a record that nobody has asked it for.  The walk is at
its beginning, whatever the changes are, and starts there with the first record.

* `LastTouched` — the record that changes touch last.
* `current_replayed_iff` — the cursor is on that record when the changes were made.
* `AtStart.serve`, `AtStart.serveAll` — only walks take the walk from its beginning.
* `opened_as_replayed` — what a table shows when it was opened, and where its walk is.
* `current_of_opened` — it may show a record at once.
-/

namespace KeyTable

/-! ## The record touched last -/

/-- Is this the record that changes touch last?  It was stored, and what came behind it has only
removed keys that were absent. -/
inductive LastTouched (entry : Entry) : List Change → Prop
  /-- It is stored. -/
  | stored (changes : List Change) : LastTouched entry (changes ++ [.store entry.key entry.value])
  /-- Nothing is removed. -/
  | passed {changes : List Change} {key : Bytes} (h : LastTouched entry changes)
      (habsent : key ∉ Contents.ofChanges changes) : LastTouched entry (changes ++ [.delete key])

namespace LastTouched

variable {entry : Entry} {changes : List Change} {key value : Bytes}

/-- No changes touch nothing. -/
theorem not_nil : ¬ LastTouched entry [] := by
  generalize hnil : ([] : List Change) = changes
  rintro (_ | _)
  · exact List.cons_ne_nil _ _ (List.append_eq_nil_iff.mp hnil.symm).2
  · exact List.cons_ne_nil _ _ (List.append_eq_nil_iff.mp hnil.symm).2

/-- A record that is stored is touched. -/
theorem store_iff : LastTouched entry (changes ++ [.store key value]) ↔ ⟨key, value⟩ = entry := by
  constructor
  · generalize hall : changes ++ [.store key value] = all
    rintro (before | ⟨h, habsent⟩)
    · have hlast := (List.append_inj' hall rfl).2
      cases hlast
      rfl
    · have hlast := (List.append_inj' hall rfl).2
      cases hlast
  · rintro rfl
    exact .stored changes

/-- To remove a key that is there leaves no record touched, and to remove any other key leaves
the one that was. -/
theorem delete_iff : LastTouched entry (changes ++ [.delete key]) ↔
    LastTouched entry changes ∧ key ∉ Contents.ofChanges changes := by
  constructor
  · generalize hall : changes ++ [.delete key] = all
    rintro (before | ⟨h, habsent⟩)
    · have hlast := (List.append_inj' hall rfl).2
      cases hlast
    · obtain ⟨rfl, hlast⟩ := List.append_inj' hall rfl
      cases hlast
      exact ⟨h, habsent⟩
  · rintro ⟨h, habsent⟩
    exact .passed h habsent

end LastTouched

namespace MemoryTable

variable {table : MemoryTable}

/-- The changes of a log leave the cursor on the record that they touch last. -/
theorem current_replayed_iff (settings : Settings) (changes : List Change) (entry : Entry) :
    (changes.foldl apply (.ofSettings settings)).current = some entry ↔
      LastTouched entry changes := by
  induction changes using List.reverseRecOn with
  | nil => exact iff_of_false nofun LastTouched.not_nil
  | append_singleton changes change ih =>
    obtain ⟨hsound, hcontents⟩ := FileTable.replayed_spec settings changes
    rw [List.foldl_append]
    generalize changes.foldl apply (.ofSettings settings) = replayed at ih hsound hcontents
    cases change with
    | store key value =>
      have hcurrent := hsound.told_store (hsound.store_spec key (.given value)).1
      rw [List.foldl_cons, List.foldl_nil, apply, hcurrent, Option.some_inj, LastTouched.store_iff]
      rfl
    | delete key =>
      have hcurrent : (replayed.delete key).2.current =
          if key ∈ replayed.contents then none else replayed.current :=
        hsound.shows (.call (.delete key))
      rw [List.foldl_cons, List.foldl_nil, apply, hcurrent, LastTouched.delete_iff, ← ih, hcontents]
      split
      · next hmem => simp [hmem]
      · next hmem => simp [hmem]

/-! ## The walk -/

theorem walk_store (table : MemoryTable) (key : Bytes) (content : Content) :
    (table.store key content).2.walk = table.walk := by
  unfold MemoryTable.store
  cases table.locate? key with
  | none => exact walk_link table _
  | some position => rfl

theorem walk_insert (table : MemoryTable) (key : Bytes) (content : Content) :
    (table.insert key content).2.walk = table.walk := by
  unfold MemoryTable.insert
  cases table.locate? key with
  | none => exact walk_link table _
  | some position => rfl

/-- A walk at the beginning has passed nothing, and need not step back when a record goes. -/
theorem walk_delete (h : table.walk = ⟨0, 0⟩) (key : Bytes) :
    (table.delete key).2.walk = ⟨0, 0⟩ := by
  unfold MemoryTable.delete
  cases table.locate? key with
  | none => exact h
  | some position =>
    show (table.unlink position).walk = ⟨0, 0⟩
    rw [unlink, h]
    exact if_neg fun hpassed => Nat.not_lt_zero _ hpassed.2

/-- The changes of a log leave the walk at its beginning. -/
theorem walk_replayed (settings : Settings) (changes : List Change) :
    (changes.foldl apply (.ofSettings settings)).walk = ⟨0, 0⟩ := by
  induction changes using List.reverseRecOn with
  | nil => rfl
  | append_singleton changes change ih =>
    rw [List.foldl_append]
    cases change with
    | store key value => exact (walk_store _ key _).trans ih
    | delete key => exact walk_delete ih key

end MemoryTable

namespace Table

variable {table : Table} {request : Request}

/-! ## Until the walk is carried on -/

/-- Does a request step through a table? -/
def Request.walks : Request → Bool
  | .first | .next | .visit .. | .each | .count | .print => true
  | _ => false

/-- Does a call step through a table? -/
def Call.walks : Call → Bool
  | .first | .next | .count => true
  | _ => false

/-- A change is made to the records of a table, or it is refused; and a call that only looks does
so in the records. -/
theorem inMemory_perform (hsound : table.inMemory.Sound) (disk : Disk) {call : Call}
    (hcall : call ≠ .count) :
    (table.perform disk call).2.1.inMemory = (table.inMemory.perform call.onRecords).2 ∨
      (table.perform disk call).2.1 = table := by
  cases table with
  | memory records =>
    rw [perform_memory]
    exact .inl rfl
  | file file =>
    cases hreadOnly : file.readOnly with
    | false =>
      obtain ⟨there, after, hperform, hmemory, -⟩ := perform_file hreadOnly hsound disk hcall
      rw [hperform]
      exact .inl hmemory
    | true =>
      have hhere := Follows.refl file
      cases call with
      | store key content =>
        rw [perform, hhere.store_eq hreadOnly]
        exact .inr rfl
      | insert key content =>
        rw [perform, hhere.insert_eq hreadOnly]
        exact .inr rfl
      | delete key =>
        rw [perform, hhere.delete_eq hreadOnly]
        exact .inr rfl
      | fetch | first | next => exact .inl rfl
      | count => exact absurd rfl hcall

/-- Is the walk of a table at its beginning? -/
structure AtStart (table : Table) : Prop where
  /-- The table can be come by. -/
  made : table.Made
  /-- In front of the walk there is nothing. -/
  walk : table.inMemory.walk = ⟨0, 0⟩

namespace AtStart

theorem perform (h : AtStart table) (disk : Disk) {call : Call} (hstill : call.walks = false) :
    AtStart (table.perform disk call).2.1 := by
  refine ⟨h.made.perform disk call, ?_⟩
  have hcall : call ≠ .count := by
    rintro rfl
    cases hstill
  rcases inMemory_perform h.made.sound disk hcall with hrecords | hsame
  · rw [hrecords]
    cases call with
    | fetch key => exact h.walk
    | store key content => exact (MemoryTable.walk_store _ key content).trans h.walk
    | insert key content => exact (MemoryTable.walk_insert _ key content).trans h.walk
    | delete key => exact MemoryTable.walk_delete h.walk key
    | first | next | count => cases hstill
  · rw [hsame]
    exact h.walk

theorem fetch (h : AtStart table) (key : Bytes) : AtStart (table.fetch key).2 := by
  have hstill : (Call.fetch key).walks = false := rfl
  exact h.perform .empty hstill

theorem stable : Stable AtStart where
  made := AtStart.made
  fetch := fetch
  store h disk key content :=
    have hstill : (Call.store key content).walks = false := rfl
    h.perform disk hstill
  log := by
    intro file after h hstep hmemory
    refine ⟨h.made.step hstep, ?_⟩
    show after.memory.walk = _
    rw [hmemory]
    exact h.walk

/-- Looking without walking leaves the walk where it is. -/
theorem look (h : AtStart table) (hlook : request.isLook = true) (hstill : request.walks = false)
    (disk : Disk) : AtStart (table.serve disk request).table := by
  have hanswered : ∀ {α : Type} (answer : Except Fault α) {later : Table}, AtStart later →
      AtStart (Served.ofAnswer answer later disk).table := by
    intro α answer later hlater
    rw [(ofAnswer_eq answer later disk).1]
    exact hlater
  cases request with
  | fetch key => exact hanswered _ (h.fetch key)
  | fetchBytes key | fetchText key | fetchHandle key | fetchInteger key =>
    exact hanswered _ (h.fetch (textKey key))
  | hasMember member => exact h.fetch (textKey member)
  | last | prev => exact hanswered _ h
  | current => exact h
  | first | next | visit | each | count | print => cases hstill
  | _ => cases hlook

/-- So does every request that does not walk. -/
theorem serve (h : AtStart table) (hstill : request.walks = false) (disk : Disk) :
    AtStart (table.serve disk request).table := by
  refine stable.serve h (fun hlook => h.look hlook hstill disk) ?_
  intro call hchange
  refine h.perform disk ?_
  cases request <;> cases hchange <;> rfl

theorem serveAll {requests : List Request} (h : AtStart table)
    (hstill : ∀ request ∈ requests, request.walks = false) (disk : Disk) :
    AtStart (table.serveAll disk requests).1 := by
  induction requests generalizing table disk with
  | nil => exact h
  | cons request requests ih =>
    exact ih (h.serve (hstill request List.mem_cons_self) disk)
      (fun request hmem => hstill request (List.mem_cons_of_mem _ hmem)) _

/-- From its beginning a walk passes all records. -/
theorem ahead_eq (h : AtStart table) : table.ahead = table.inMemory.entries := by
  rw [ahead, h.walk, MemoryTable.ahead_start]
  rfl

end AtStart

/-! ## Opening -/

/-- What can be said of a table to which the changes of its log were made, and nothing else. -/
structure AsReplayed (changes : List Change) (table : Table) : Prop where
  /-- It shows the record that they have touched last, and nothing if there is none. -/
  current : ∀ entry, table.current = some entry ↔ LastTouched entry changes
  /-- Whatever is asked before the walk is carried on, it goes to the first record then, and the
  others are ahead of it. -/
  next : ∀ disk requests, (∀ request ∈ requests, request.walks = false) →
    let there := (table.serveAll disk requests).1
    there.next.1 = there.inMemory.entries.head? ∧ there.next.2.ahead = there.inMemory.entries.tail

variable {disk : Disk} {path : Path} {flags : OpenFlags} {settings : Settings} {file : FileTable}

/-- What is opened on a file is made of the changes that are found in it. -/
theorem replayed_of_ofFile {number : Nat}
    (h : (FileTable.ofFile disk number path flags settings).answer = .ok file) :
    ∃ changes recovery, Log.found (disk.contents number) = .ok (changes, recovery) ∧
      file.memory = changes.foldl MemoryTable.apply (.ofSettings settings) := by
  unfold FileTable.ofFile at h
  dsimp only at h
  rw [FileTable.recover_eq] at h
  cases hfound : Log.found (disk.contents number) with
  | error fault =>
    rw [hfound] at h
    cases h
  | ok found =>
    rw [hfound] at h
    refine ⟨found.1, found.2, rfl, ?_⟩
    dsimp only [Except.map] at h
    split at h <;>
      · cases h
        rfl

/-- So they say where its cursor is, and its walk is at its beginning. -/
theorem asReplayed {changes : List Change} (hmade : (Table.file file).Made)
    (h : file.memory = changes.foldl MemoryTable.apply (.ofSettings settings)) :
    AsReplayed changes (.file file) where
  current := by
    intro entry
    show file.memory.current = some entry ↔ _
    rw [h]
    exact MemoryTable.current_replayed_iff settings changes entry
  next := by
    intro disk requests hstill there
    have hstart : AtStart (.file file) := by
      refine ⟨hmade, ?_⟩
      show file.memory.walk = _
      rw [h]
      exact MemoryTable.walk_replayed settings changes
    have hthere : AtStart there := hstart.serveAll hstill disk
    obtain ⟨hanswer, hahead, -⟩ := there.next_spec
    rw [hthere.ahead_eq] at hanswer hahead
    exact ⟨hanswer, hahead⟩

/-- A disk with one file, which holds the log of these changes. -/
def diskOf (changes : List Change) : Disk :=
  (⟨[(["t"], .file 0)], #[.empty 0o644]⟩ : Disk).update 0 (·.withBytes (Log.logOf changes))

theorem reachable_diskOf (changes : List Change) : (diskOf changes).Reachable := by
  have hmade : Disk.openOrMake .empty ⟨"t"⟩ 0o644 =
      .ok (0, ⟨[(["t"], .file 0)], #[.empty 0o644]⟩) := by cbv
  exact .update 0 _ (.openOrMake .empty hmade)

theorem fileNumber_diskOf (changes : List Change) : (diskOf changes).fileNumber ⟨"t"⟩ = .ok 0 := by
  cbv

/-- All changes are found in the file. -/
theorem found_diskOf {changes : List Change} (h : ∀ change ∈ changes, change.Framable) :
    ∃ recovery, Log.found ((diskOf changes).contents 0) = .ok (changes, recovery) := by
  have hreplay := Log.replay_logOf_append h (show Log.decodeFrame? [] = none from rfl)
  rw [List.append_nil] at hreplay
  have hwhole : ¬ Log.CutHeader (Log.logOf changes) := by
    rw [← Log.isPartialHeader_iff, Log.logOf, Log.isPartialHeader_header_append]
    exact Bool.false_ne_true
  refine ⟨_, Eq.trans ?_ hreplay⟩
  exact if_neg hwhole

/-- So the file can be opened, and they are made. -/
theorem openAt_diskOf {changes : List Change} (h : ∀ change ∈ changes, change.Framable) :
    ∃ file, (FileTable.openAt (diskOf changes) ⟨"t"⟩ .readWrite {}).answer = .ok file ∧
      file.memory = changes.foldl MemoryTable.apply (.ofSettings {}) := by
  have hsettings : Settings.flaw? {} = none := rfl
  have hflags : OpenFlags.readWrite.flaw? = none := rfl
  obtain ⟨recovery, hfound⟩ := found_diskOf h
  obtain ⟨file, hopen, hopened⟩ :=
    FileTable.openAt_of_found hsettings hflags rfl (fileNumber_diskOf changes) hfound
  exact ⟨file, hopen, hopened.memory_eq⟩

/-- A table that was opened is as the changes have left it that were found in its file, which is
empty if the flags ask for it. -/
theorem opened_as_replayed
    (h : (FileTable.openAt disk path flags settings).answer = .ok file) :
    ∃ number located changes recovery,
      FileTable.locateFile disk path flags = .ok (number, located) ∧
      Log.found ((FileTable.cleared located number flags).contents number) =
        .ok (changes, recovery) ∧
      AsReplayed changes (.file file) := by
  have hmade : (Table.file file).Made := by
    have hopened : (Table.openAt .file disk path flags settings).answer = .ok (.file file) := by
      simp only [Table.openAt, h, Except.map]
    exact .opened hopened
  obtain ⟨-, -, number, located, hlocate, hopen⟩ := FileTable.exists_located_of_openAt h
  rw [hopen] at h
  obtain ⟨changes, recovery, hfound, hmemory⟩ := replayed_of_ofFile h
  exact ⟨number, located, changes, recovery, hlocate, hfound, asReplayed hmade hmemory⟩

/-- Of a log that stores two records and removes an absent key, the second record is shown; after
the first has got another value, the walk starts with the first record all the same. -/
theorem opened_as_replayed_twice :
    let changes : List Change := [.store [98] [121], .store [97] [120], .delete [99]]
    ∃ file, (FileTable.openAt (diskOf changes) ⟨"t"⟩ .readWrite {}).answer = .ok file ∧
      (Table.file file).current = some ⟨[97], [120]⟩ ∧
      let there := ((Table.file file).serveAll (diskOf changes) [.store [98] (.given [122])]).1
      there.next.1 = there.inMemory.entries.head? := by
  intro changes
  have hframable : ∀ change ∈ changes, change.Framable := by decide
  obtain ⟨file, hopen, -⟩ := openAt_diskOf hframable
  obtain ⟨recovery, hexpected⟩ := found_diskOf hframable
  obtain ⟨number, located, found, _, hlocate, hfound, hreplayed⟩ := opened_as_replayed hopen
  have hhere : FileTable.locateFile (diskOf changes) ⟨"t"⟩ .readWrite = .ok (0, diskOf changes) :=
    FileTable.locateFile_of_fileNumber (fileNumber_diskOf changes) .readWrite
  rw [hhere] at hlocate
  cases hlocate
  have hsame : found = changes :=
    congrArg Prod.fst (Except.ok.inj (hfound.symm.trans hexpected))
  subst hsame
  have htouched : LastTouched ⟨[97], [120]⟩ changes := by
    refine .passed (.stored [.store [98] [121]]) ?_
    decide
  refine ⟨file, hopen, (hreplayed.current _).mpr htouched, ?_⟩
  exact (hreplayed.next _ _ (by decide)).1

/-- A table whose log stores one record shows that record as soon as it is opened, though nobody
has asked for it. -/
theorem current_of_opened :
    let disk := diskOf [.store [97] [120]]
    disk.Reachable ∧ ∃ file, (FileTable.openAt disk ⟨"t"⟩ .readWrite {}).answer = .ok file ∧
      (Table.file file).current = some ⟨[97], [120]⟩ := by
  intro disk
  obtain ⟨file, hopen, hmemory⟩ :=
    openAt_diskOf (show ∀ change ∈ [Change.store [97] [120]], change.Framable by decide)
  refine ⟨reachable_diskOf _, file, hopen, ?_⟩
  show file.memory.current = _
  rw [hmemory]
  exact (MemoryTable.current_replayed_iff {} _ ⟨[97], [120]⟩).mpr (.stored [])

end Table
end KeyTable
