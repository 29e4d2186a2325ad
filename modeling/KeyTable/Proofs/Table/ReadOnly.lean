import KeyTable.Proofs.Dump.Refused
import KeyTable.Proofs.FileTable.Recovered
import KeyTable.Proofs.Table.Kinds
import KeyTable.Proofs.Table.Looking
import KeyTable.Proofs.Table.Numbers

/-!
# Read-only tables

A table that was opened for reading has no log, and refuses every change.  Whatever is asked of
it, the disk stays as it was, and so do the records.  All that a lookup or a walk can move is
the walk and the cursor, and a change that is refused moves neither.

* `Request`, `serve` — all that a caller can ask of a table, and what comes of it.
* `looked_serve` — many requests only look.
* `Follows` — a table that may differ from an opened one in its walk and its cursor only.
* `Follows.serve`, `Follows.serveAll` — so does what a read-only table becomes by any requests,
  and the disk is left as it was.
* `Follows.refused` — changes are refused, and leave the table as it was.
* `Follows.answers` — all else is answered from the records that the table was opened with.
* `readOnly_unchanging` — all of this for whatever can be opened for reading.
-/

namespace KeyTable
namespace Table

/-! ## Requests -/

/-- Something that a caller asks of a table. -/
inductive Request where
  /-- Fetch the value of a key. -/
  | fetch (key : Bytes)
  /-- Fetch the bytes stored under a text key. -/
  | fetchBytes (key : String)
  /-- Fetch a text. -/
  | fetchText (key : String)
  /-- Fetch a handle. -/
  | fetchHandle (key : String)
  /-- Fetch a signed number. -/
  | fetchInteger (key : String)
  /-- Ask whether a text is in a set. -/
  | hasMember (member : String)
  /-- Start the walk. -/
  | first
  /-- Carry the walk on. -/
  | next
  /-- Start a walk backwards. -/
  | last
  /-- Carry a walk backwards on. -/
  | prev
  /-- Ask for the record touched last. -/
  | current
  /-- Walk through the table, up to a record that is to stop the walk. -/
  | visit (stop : Entry → Bool)
  /-- Walk through the whole table. -/
  | each
  /-- Ask for the number of records. -/
  | count
  /-- Write the table as a dump. -/
  | print
  /-- Add a key or give it another value. -/
  | store (key : Bytes) (content : Content)
  /-- Add a key that is absent. -/
  | insert (key : Bytes) (content : Content)
  /-- Remove a key. -/
  | delete (key : Bytes)
  /-- Store a text, or no text. -/
  | storeText (key : String) (text : Option String)
  /-- Store a text, or no text, under a key that is absent. -/
  | insertText (key : String) (text : Option String)
  /-- Remove a text key. -/
  | deleteText (key : String)
  /-- Add a text to a set. -/
  | addMember (member : String)
  /-- Store a handle. -/
  | storeHandle (key : String) (handle : UInt64)
  /-- Store a signed number. -/
  | storeInteger (key : String) (n : Int64)
  /-- Replace the log by one that holds each record once. -/
  | compact
  /-- Add one to a counter. -/
  | bump (key : String)
  /-- Read a set of a stream into the table. -/
  | read (stream : Stream)
  /-- Force all logged changes to the disk. -/
  | sync

/-- What came of a request. -/
structure Served where
  /-- Why it failed, if it did. -/
  fault? : Option Fault
  /-- The table afterwards. -/
  table : Table
  /-- The disk afterwards. -/
  disk : Disk

/-- What came of a request that was answered in this way. -/
def Served.ofAnswer {α : Type} (answer : Except Fault α) (table : Table) (disk : Disk) : Served :=
  match answer with
  | .ok _ => ⟨none, table, disk⟩
  | .error fault => ⟨some fault, table, disk⟩

/-- What came of a request that had this outcome. -/
def Served.ofOutcome {α : Type} (outcome : Outcome Table α) : Served :=
  .ofAnswer outcome.answer outcome.table outcome.disk

/-- Serves a request.  A table in memory has nothing to sync and nothing to compact. -/
def serve (table : Table) (disk : Disk) : Request → Served
  | .fetch key => .ofAnswer (table.fetch key).1 (table.fetch key).2 disk
  | .fetchBytes key => .ofAnswer (table.fetchBytes key).1 (table.fetchBytes key).2 disk
  | .fetchText key => .ofAnswer (table.fetchText key).1 (table.fetchText key).2 disk
  | .fetchHandle key => .ofAnswer (table.fetchHandle key).1 (table.fetchHandle key).2 disk
  | .fetchInteger key => .ofAnswer (table.fetchInteger key).1 (table.fetchInteger key).2 disk
  | .hasMember member => ⟨none, (table.hasMember member).2, disk⟩
  | .first => ⟨none, table.first.2, disk⟩
  | .next => ⟨none, table.next.2, disk⟩
  | .last => .ofAnswer table.last table disk
  | .prev => .ofAnswer table.prev table disk
  | .current => ⟨none, table, disk⟩
  | .visit stop => ⟨none, (table.visit stop).table, disk⟩
  | .each => ⟨none, table.each.2, disk⟩
  | .count => ⟨none, table.count.2, disk⟩
  | .print => .ofAnswer (Dump.print table).answer (Dump.print table).table disk
  | .store key content => .ofOutcome (table.store disk key content)
  | .insert key content => .ofOutcome (table.insert disk key content)
  | .delete key => .ofOutcome (table.delete disk key)
  | .storeText key text => .ofOutcome (table.storeText disk key text)
  | .insertText key text => .ofOutcome (table.insertText disk key text)
  | .deleteText key => .ofOutcome (table.deleteText disk key)
  | .addMember member => .ofOutcome (table.addMember disk member)
  | .storeHandle key handle => .ofOutcome (table.storeHandle disk key handle)
  | .storeInteger key n => .ofOutcome (table.storeInteger disk key n)
  | .compact =>
    match table with
    | .memory table => ⟨none, .memory table, disk⟩
    | .file table =>
      let outcome := table.compact disk
      .ofAnswer outcome.answer (.file outcome.table) outcome.disk
  | .bump key => .ofOutcome (table.bump disk key)
  | .read stream =>
    let loaded := Dump.readSet table disk stream
    .ofAnswer loaded.answer loaded.table loaded.disk
  | .sync =>
    match table with
    | .memory table => ⟨none, .memory table, disk⟩
    | .file table => ⟨none, .file (table.sync disk).1, (table.sync disk).2⟩

/-- The table and the disk after any number of requests. -/
def serveAll (table : Table) (disk : Disk) : List Request → Table × Disk
  | [] => (table, disk)
  | request :: requests =>
    let served := table.serve disk request
    serveAll served.table served.disk requests

/-- Does a request ask for a change, and for nothing else? -/
def Request.isChange : Request → Bool
  | .store .. | .insert .. | .delete .. | .storeText .. | .insertText .. | .deleteText ..
  | .addMember .. | .storeHandle .. | .storeInteger .. | .compact => true
  | _ => false

/-- Does a request only look at a table? -/
def Request.isLook : Request → Bool
  | .fetch .. | .fetchBytes .. | .fetchText .. | .fetchHandle .. | .fetchInteger .. | .hasMember ..
  | .first | .next | .last | .prev | .current | .visit .. | .each | .count | .print => true
  | _ => false

theorem ofAnswer_eq {α : Type} (answer : Except Fault α) (table : Table) (disk : Disk) :
    (Served.ofAnswer answer table disk).table = table ∧
      (Served.ofAnswer answer table disk).disk = disk := by
  cases answer <;> exact ⟨rfl, rfl⟩

/-- Such a request is answered from the table, and leaves the disk alone. -/
theorem looked_serve {request : Request} (hlook : request.isLook = true) (table : Table)
    (disk : Disk) :
    Looked table (table.serve disk request).table ∧ (table.serve disk request).disk = disk := by
  have hanswered : ∀ {α : Type} (answer : Except Fault α) {later : Table}, Looked table later →
      Looked table (Served.ofAnswer answer later disk).table ∧
        (Served.ofAnswer answer later disk).disk = disk := by
    intro α answer later hlooked
    rw [(ofAnswer_eq answer later disk).1]
    exact ⟨hlooked, (ofAnswer_eq answer later disk).2⟩
  have hhere : Looked table table := .refl
  cases request with
  | fetch key => exact hanswered _ (hhere.fetch key)
  | fetchBytes key | fetchText key | fetchHandle key | fetchInteger key =>
    exact hanswered _ (hhere.fetch (textKey key))
  | hasMember member => exact ⟨hhere.fetch (textKey member), rfl⟩
  | first => exact ⟨hhere.first, rfl⟩
  | next => exact ⟨hhere.next, rfl⟩
  | last | prev => exact hanswered _ hhere
  | current => exact ⟨hhere, rfl⟩
  | visit stop => exact ⟨hhere.visit stop, rfl⟩
  | each => exact ⟨hhere.visit _, rfl⟩
  | count => exact ⟨hhere.count, rfl⟩
  | print => exact hanswered _ hhere.print
  | _ => cases hlook

/-! ## Tables that differ in the walk and the cursor only -/

/-- Is a table an opened one, but for the walk and the cursor? -/
def Follows (opened : FileTable) (table : Table) : Prop :=
  ∃ memory, table = .file { opened with memory } ∧ MemoryTable.SameRecords memory opened.memory

variable {opened : FileTable} {table : Table}

theorem Follows.refl (opened : FileTable) : Follows opened (.file opened) :=
  ⟨opened.memory, rfl, rfl, rfl⟩

theorem Follows.sameRecords (h : Follows opened table) :
    MemoryTable.SameRecords table.inMemory opened.memory := by
  obtain ⟨memory, rfl, hsame⟩ := h
  exact hsame

/-- Looking at a table keeps that so. -/
theorem Follows.looked {later : Table} (h : Follows opened table) (hlooked : Looked table later) :
    Follows opened later := by
  induction hlooked with
  | refl => exact h
  | fetch _ key ih =>
    obtain ⟨memory, rfl, hsame⟩ := ih
    exact ⟨_, rfl, (memory.sameRecords_fetch key).trans hsame⟩
  | first _ ih =>
    obtain ⟨memory, rfl, hsame⟩ := ih
    exact ⟨_, rfl, memory.sameRecords_first.trans hsame⟩
  | next _ ih =>
    obtain ⟨memory, rfl, hsame⟩ := ih
    exact ⟨_, rfl, memory.sameRecords_next.trans hsame⟩

/-! ## Answers -/

/-- Does a table answer from these contents, and walk through these records? -/
structure Answers (contents : Contents) (entries : List Entry) (table : Table) : Prop where
  /-- Keys are looked up in the contents, which leaves the walk where it is. -/
  fetch : ∀ key, (table.fetch key).1 = MemoryTable.found (contents.lookup key) ∧
    (table.fetch key).2.ahead = table.ahead
  /-- A walk starts at the first record. -/
  first : table.first.1 = entries.head? ∧ table.first.2.ahead = entries.tail
  /-- It goes on to the first record ahead. -/
  next : table.next.1 = table.ahead.head? ∧ table.next.2.ahead = table.ahead.tail
  /-- The records ahead are the last of all. -/
  ahead : table.ahead <:+ entries
  /-- A whole walk passes all records. -/
  each : table.each.1 = entries
  /-- The contents are counted. -/
  count : table.count.1 = contents.size

/-- Such a table answers from the records that were opened. -/
theorem Follows.answers (h : Follows opened table) (hsound : opened.memory.Sound) :
    Answers opened.memory.contents opened.memory.entries table := by
  have hsame := h.sameRecords
  have hthere : table.inMemory.Sound := hsound.congr hsame
  have hentries := hsame.entries_eq
  obtain ⟨hhead, htail, -⟩ := table.first_spec
  obtain ⟨hstep, hbehind, -⟩ := table.next_spec
  rw [hentries] at hhead htail
  refine ⟨fun key => ⟨?_, ?_⟩, ⟨hhead, htail⟩, ⟨hstep, hbehind⟩, ?_, ?_, ?_⟩
  · rw [(table.fetch_eq key).1, (hthere.fetch_spec key).1, hsame.contents_eq]
  · rw [ahead, (table.fetch_eq key).2]
    rfl
  · rw [← hentries]
    exact (MemoryTable.ahead_suffix _ _).map Record.entry
  · rw [table.each_spec.1, hentries]
  · obtain ⟨memory, rfl, -⟩ := h
    obtain ⟨last, hcount, -⟩ := count_file hthere
    rw [hcount, ← hsame.contents_eq]
    rfl

/-! ## Syncing and giving up -/

/-- A table without a log has nothing to write, not even when it is given up. -/
theorem Follows.sync_eq (h : Follows opened table) (hlog : opened.log = none) (disk : Disk) :
    table.serve disk .sync = ⟨none, table, disk⟩ ∧ table.release disk = disk ∧
      table.close disk = disk := by
  obtain ⟨memory, rfl, -⟩ := h
  simp only [serve, release, close, FileTable.sync, FileTable.release, hlog, and_self]

/-! ## Changes -/

section ReadOnly

variable (hreadOnly : opened.readOnly = true)
include hreadOnly

theorem Follows.store_eq (h : Follows opened table) (disk : Disk) (key : Bytes)
    (content : Content) : table.store disk key content = ⟨.error .readOnly, table, disk⟩ := by
  obtain ⟨memory, rfl, -⟩ := h
  simp only [Table.store, FileTable.store, hreadOnly, if_true]

theorem Follows.insert_eq (h : Follows opened table) (disk : Disk) (key : Bytes)
    (content : Content) : table.insert disk key content = ⟨.error .readOnly, table, disk⟩ := by
  obtain ⟨memory, rfl, -⟩ := h
  simp only [Table.insert, FileTable.insert, hreadOnly, if_true]

theorem Follows.delete_eq (h : Follows opened table) (disk : Disk) (key : Bytes) :
    table.delete disk key = ⟨.error .readOnly, table, disk⟩ := by
  obtain ⟨memory, rfl, -⟩ := h
  simp only [Table.delete, FileTable.delete, hreadOnly, if_true]

/-- Every change is refused, and leaves the table and the disk as they were. -/
theorem Follows.refused (h : Follows opened table) (disk : Disk) {request : Request}
    (hchange : request.isChange = true) :
    table.serve disk request = ⟨some .readOnly, table, disk⟩ := by
  have hstore := h.store_eq hreadOnly disk
  have hinsert := h.insert_eq hreadOnly disk
  cases request with
  | store key content => rw [serve, hstore]; rfl
  | insert key content => rw [serve, hinsert]; rfl
  | delete key => rw [serve, h.delete_eq hreadOnly]; rfl
  | storeText key text => rw [serve, storeText, hstore]; rfl
  | insertText key text => rw [serve, insertText, hinsert]; rfl
  | deleteText key => rw [serve, deleteText, h.delete_eq hreadOnly]; rfl
  | addMember member => rw [serve, addMember, hinsert]; rfl
  | storeHandle key handle => rw [serve, storeHandle, hstore]; rfl
  | storeInteger key n => rw [serve, storeInteger, hstore]; rfl
  | compact =>
    obtain ⟨memory, rfl, -⟩ := h
    simp only [serve, FileTable.compact, hreadOnly, if_true, Served.ofAnswer]
  | _ => cases hchange

/-- Why a counter cannot be bumped, if this is what is stored under its key. -/
def bumpFault : Option Bytes → Fault
  | some value =>
    if value.length = 8 then .readOnly else .corrupt (.wrongWidth .counter value.length)
  | none => .readOnly

/-- A counter is looked up, and then it is not stored. -/
theorem Follows.bump_eq (h : Follows opened table) (hsound : opened.memory.Sound) (disk : Disk)
    (key : String) :
    table.bump disk key =
      ⟨.error (bumpFault (opened.memory.contents.lookup (textKey key))),
        (table.fetch (textKey key)).2, disk⟩ := by
  have hthere : table.inMemory.Sound := hsound.congr h.sameRecords
  have hfetched := h.looked (.fetch .refl (textKey key))
  rw [Table.bump_eq hthere, h.sameRecords.contents_eq]
  cases opened.memory.contents.lookup (textKey key) with
  | none => simp only [nextCount, hfetched.store_eq hreadOnly, bumpFault]; rfl
  | some value =>
    by_cases hlength : value.length = 8
    · simp only [nextCount, readNumber, bumpFault, if_pos hlength, Except.map,
        hfetched.store_eq hreadOnly]
      rfl
    · simp only [nextCount, readNumber, bumpFault, if_neg hlength, Except.map]

/-- A dump is not read into the table. -/
theorem Follows.read_refused (h : Follows opened table) (disk : Disk) (stream : Stream) :
    Dump.Turn.Refused ⟨table, disk, stream⟩ .readOnly :=
  Dump.Turn.refused fun key content => h.store_eq hreadOnly disk key content

/-! ## Any requests -/

/-- One request leaves the disk as it was, and the table but for its walk and its cursor. -/
theorem Follows.serve (h : Follows opened table) (hlog : opened.log = none)
    (hsound : opened.memory.Sound) (disk : Disk) (request : Request) :
    Follows opened (table.serve disk request).table ∧ (table.serve disk request).disk = disk := by
  by_cases hchange : request.isChange = true
  · rw [h.refused hreadOnly disk hchange]
    exact ⟨h, rfl⟩
  by_cases hlook : request.isLook = true
  · obtain ⟨hlooked, hdisk⟩ := looked_serve hlook table disk
    exact ⟨h.looked hlooked, hdisk⟩
  cases request with
  | bump key =>
    rw [Table.serve, Served.ofOutcome, h.bump_eq hreadOnly hsound]
    exact ⟨h.looked (.fetch .refl (textKey key)), rfl⟩
  | read stream =>
    have hrefused := h.read_refused hreadOnly disk stream
    have htable : (Dump.readSet table disk stream).table = table := hrefused.table_eq
    have hdisk : (Dump.readSet table disk stream).disk = disk := hrefused.disk_eq
    obtain ⟨hsame, hleft⟩ := ofAnswer_eq (Dump.readSet table disk stream).answer table disk
    rw [Table.serve, htable, hdisk, hsame]
    exact ⟨h, hleft⟩
  | sync =>
    rw [(h.sync_eq hlog disk).1]
    exact ⟨h, rfl⟩
  | store | insert | delete | storeText | insertText | deleteText | addMember | storeHandle
    | storeInteger | compact => exact absurd rfl hchange
  | _ => exact absurd rfl hlook

/-- So do any number of requests. -/
theorem Follows.serveAll (h : Follows opened table) (hlog : opened.log = none)
    (hsound : opened.memory.Sound) (disk : Disk) (requests : List Request) :
    Follows opened (table.serveAll disk requests).1 ∧ (table.serveAll disk requests).2 = disk := by
  induction requests generalizing table with
  | nil => exact ⟨h, rfl⟩
  | cons request requests ih =>
    obtain ⟨hserved, hdisk⟩ := h.serve hreadOnly hlog hsound disk request
    rw [Table.serveAll, hdisk]
    exact ih hserved

end ReadOnly

/-! ## Tables that were opened for reading -/

/-- What a table is like that is never changed: what was recovered into it, and the disk then. -/
structure Unchanging (contents : Contents) (entries : List Entry) (disk : Disk) (table : Table)
    (after : Disk) : Prop where
  /-- The disk is as it was. -/
  disk_eq : after = disk
  /-- It stays so when the table is given up. -/
  released : table.release after = disk
  /-- It stays so when the table is closed. -/
  closed : table.close after = disk
  /-- A change is refused, and leaves the records, the walk and the cursor as they were. -/
  refuses : ∀ request : Request, request.isChange = true →
    table.serve after request = ⟨some .readOnly, table, after⟩
  /-- A counter is looked up, and not changed. -/
  bumps : ∀ key, table.bump after key =
    ⟨.error (bumpFault (contents.lookup (textKey key))), (table.fetch (textKey key)).2, after⟩
  /-- The first record of a set is refused. -/
  reads : ∀ stream, Dump.Turn.Refused ⟨table, after, stream⟩ .readOnly
  /-- All else is answered from the contents. -/
  answers : Answers contents entries table

/-- The contents that a file is recovered to, and the records that list them. -/
structure ReadsBack (disk : Disk) (path : Path) (contents : Contents) (entries : List Entry) :
    Prop where
  /-- The contents are what the changes that are found in the file make up. -/
  replayed : ∃ bytes changes recovery, disk.read path = .ok bytes ∧
    Log.found bytes = .ok (changes, recovery) ∧ contents = Contents.ofChanges changes
  /-- The records list them. -/
  listed : Contents.ofEntries entries = contents
  /-- Each key is listed once. -/
  nodup : (entries.map Entry.key).Nodup

variable {disk : Disk} {path : Path} {flags : OpenFlags} {settings : Settings}

/-- A file that could be opened for reading was there, and is opened without a log, on the disk
as it is. -/
theorem exists_opened_of_readOnly {opened : FileTable} (hreadOnly : flags.readOnly = true)
    (h : (FileTable.openAt disk path flags settings).answer = .ok opened) :
    (FileTable.openAt disk path flags settings).disk = disk ∧ opened.readOnly = true ∧
      opened.log = none ∧
      ReadsBack disk path opened.memory.contents opened.memory.entries := by
  obtain ⟨hsettings, hflags, file, located, hlocate, -⟩ := FileTable.exists_located_of_openAt h
  obtain ⟨htruncate, hcreate⟩ : flags.truncate = false ∧ flags.create = false := by
    simpa [OpenFlags.flaw?, hreadOnly] using hflags
  have hnamed : disk.fileNumber path = .ok file := by
    rw [FileTable.locateFile, if_neg (ne_true_of_eq_false hcreate)] at hlocate
    cases hnumber : disk.fileNumber path with
    | error error => rw [hnumber] at hlocate; cases hlocate
    | ok number => rw [hnumber] at hlocate; cases hlocate; rfl
  obtain ⟨changes, recovery, hfound⟩ := FileTable.exists_found_of_openAt htruncate hnamed h
  obtain ⟨same, hsame, hwith⟩ :=
    FileTable.openAt_of_found hsettings hflags htruncate hnamed hfound
  rw [h] at hsame
  cases hsame
  have hdisk := hwith.disk_eq
  have hlog := hwith.log_eq
  rw [if_pos hreadOnly] at hdisk hlog
  refine ⟨hdisk, ?_, hlog, ?_, rfl, (FileTable.sound_of_openAt h).nodup_entries⟩
  · rw [FileTable.readOnly_of_openAt h, hreadOnly]
  · exact ⟨_, changes, recovery, Disk.read_eq_ok_iff.mpr ⟨file, hnamed, rfl⟩, hfound,
      hwith.contents_eq⟩

/-- A table that was opened for reading never changes anything, whatever is asked of it. -/
theorem readOnly_unchanging {table : Table} (hreadOnly : flags.readOnly = true)
    (hopen : (openAt .file disk path flags settings).answer = .ok table) :
    (openAt .file disk path flags settings).disk = disk ∧
      ∃ contents entries, ReadsBack disk path contents entries ∧
        ∀ requests, Unchanging contents entries disk (table.serveAll disk requests).1
          (table.serveAll disk requests).2 := by
  have hanswer : (FileTable.openAt disk path flags settings).answer.map Table.file = .ok table :=
    hopen
  cases hfile : (FileTable.openAt disk path flags settings).answer with
  | error fault => rw [hfile] at hanswer; cases hanswer
  | ok opened =>
    rw [hfile] at hanswer
    cases hanswer
    obtain ⟨hdisk, hrefuses, hlog, hreads⟩ := exists_opened_of_readOnly hreadOnly hfile
    have hsound := FileTable.sound_of_openAt hfile
    refine ⟨hdisk, _, _, hreads, fun requests => ?_⟩
    obtain ⟨hfollows, hafter⟩ :=
      (Follows.refl opened).serveAll hrefuses hlog hsound disk requests
    rw [hafter]
    obtain ⟨-, hreleased, hclosed⟩ := hfollows.sync_eq hlog disk
    exact ⟨rfl, hreleased, hclosed, fun request => hfollows.refused hrefuses disk,
      hfollows.bump_eq hrefuses hsound disk, hfollows.read_refused hrefuses disk,
      hfollows.answers hsound⟩

/-- A log with damage behind its only frame is opened for reading as it is. -/
theorem readOnly_unchanging_damaged :
    let bytes := Log.ofFrames [Log.Frame.ofChange (.store [1] [2])] ++ [0xff]
    let disk : Disk := ⟨[(["t"], .file 0)], #[(StoredFile.empty 0o644).withBytes bytes]⟩
    ∃ table, OpenFlags.reading.readOnly = true ∧
      (openAt .file disk ⟨"t"⟩ .reading {}).answer = .ok table ∧
      disk.read ⟨"t"⟩ = .ok bytes ∧ (openAt .file disk ⟨"t"⟩ .reading {}).disk = disk ∧
      ∃ contents entries, ReadsBack disk ⟨"t"⟩ contents entries ∧
        ∀ requests, Unchanging contents entries disk (table.serveAll disk requests).1
          (table.serveAll disk requests).2 := by
  intro bytes disk
  have hnamed : disk.fileNumber ⟨"t"⟩ = .ok 0 := by cbv
  have hcontents : disk.contents 0 = bytes := rfl
  have hintact : ∀ frame ∈ [Log.Frame.ofChange (.store [1] [2])], frame.Intact := by
    intro frame hframe
    rw [List.mem_singleton.mp hframe]
    exact Log.Frame.intact_ofChange (by decide)
  have hfound : Log.found (disk.contents 0) = _ := Log.found_ofFrames_append hintact rfl
  obtain ⟨opened, hopened, -⟩ :=
    @FileTable.openAt_of_found disk ⟨"t"⟩ .reading {} 0 _ _ rfl rfl rfl hnamed hfound
  have hopen : (openAt .file disk ⟨"t"⟩ .reading {}).answer = .ok (.file opened) :=
    congrArg (Except.map Table.file) hopened
  exact ⟨.file opened, rfl, hopen, Disk.read_eq_ok_iff.mpr ⟨0, hnamed, hcontents⟩,
    readOnly_unchanging rfl hopen⟩

end Table
end KeyTable
