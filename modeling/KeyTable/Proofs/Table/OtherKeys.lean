import KeyTable.Proofs.Table.ReadOnly

/-!
# What leaves a key alone

Whatever is done with the other keys of a table, the value of a key stays: records are
overwritten in place, get fresh buffers or move to other buckets, and the log is written or
replaced, but no value gets lost by that, and a table that could be changed still can.

* `Deed`, `doing` — all that a caller can do with a table.
* `Request.change?`, `serve_change` — the typed requests come down to a few calls.
* `Serving`, `serving` — what any request comes down to.
* `Deed.Spares` — a deed that does not concern a key.
* `Keeps` — what such a deed leaves as it was.
* `keeps_doing` — so it does.
-/

namespace KeyTable
namespace Table

/-! ## Deeds -/

/-- Something that a caller does with a table. -/
inductive Deed where
  /-- Make a request. -/
  | ask (request : Request)
  /-- Write over the start of the value of a key. -/
  | patch (key bytes : Bytes)

/-- The table and the disk after a deed.  Only a table in memory lets a caller write into its
values. -/
def doing (table : Table) (disk : Disk) : Deed → Table × Disk
  | .ask request =>
    let served := table.serve disk request
    (served.table, served.disk)
  | .patch key bytes =>
    match table with
    | .memory records => (.memory (records.patch key bytes).2, disk)
    | .file records => (.file records, disk)

/-! ## The keys that they concern -/

/-- The key that a call is about. -/
def Call.key? : Call → Option Bytes
  | .fetch key | .store key _ | .insert key _ | .delete key => some key
  | .first | .next | .count => none

/-- The call that a request for a change comes down to. -/
def Request.change? : Request → Option Call
  | .store key content => some (.store key content)
  | .insert key content => some (.insert key content)
  | .delete key => some (.delete key)
  | .storeText key text => some (.store (textKey key) (.given (textValue text)))
  | .insertText key text => some (.insert (textKey key) (.given (textValue text)))
  | .deleteText key => some (.delete (textKey key))
  | .addMember member => some (.insert (textKey member) (.given []))
  | .storeHandle key handle => some (.store (textKey key) (.given (numberValue handle)))
  | .storeInteger key n => some (.store (textKey key) (.given (numberValue n.toUInt64)))
  | _ => none

/-- The key whose value a request changes. -/
def Request.key? : Request → Option Bytes
  | .bump key => some (textKey key)
  | request => request.change?.bind Call.key?

/-- The key whose value a deed changes. -/
def Deed.key? : Deed → Option Bytes
  | .ask request => request.key?
  | .patch key _ => some key

/-- Does a deed leave the value of a key alone? -/
structure Deed.Spares (key : Bytes) (table : Table) (disk : Disk) (deed : Deed) : Prop where
  /-- It changes the value of no key, or of another. -/
  others : deed.key? ≠ some key
  /-- If it reads a set, the table takes the records, and they have other keys. -/
  reads : ∀ stream, deed = .ask (.read stream) → table.Takes stream.origin? ∧
    ∀ entry, .record entry ∈ Dump.emitted (Dump.firstSet (stream.handsOut disk)) → entry.key ≠ key

theorem serve_change {request : Request} {call : Call} (h : request.change? = some call)
    (table : Table) (disk : Disk) :
    (table.serve disk request).table = (table.perform disk call).2.1 := by
  cases request <;> simp only [Request.change?, Option.some.injEq, reduceCtorEq] at h <;>
    · subst h
      exact (ofAnswer_eq _ _ _).1

/-- The key of a change is the key of the call that it comes down to. -/
theorem Request.key?_of_change? {request : Request} {call : Call}
    (h : request.change? = some call) : request.key? = call.key? := by
  cases request <;> cases h <;> rfl

/-- What a request comes down to. -/
inductive Serving (table : Table) (disk : Disk) (request : Request) (later : Table) : Prop
  /-- It only looks. -/
  | looks (hlook : request.isLook = true) (hlooked : Looked table later)
  /-- It is a call for a change. -/
  | calls (call : Call) (hchange : request.change? = some call)
      (hlater : later = (table.perform disk call).2.1)
  /-- It bumps a counter. -/
  | bumps (name : String) (hrequest : request = .bump name)
      (hlater : later = (table.bump disk name).table)
  /-- It reads a set. -/
  | reads (stream : Stream) (hrequest : request = .read stream)
      (hlater : later = (Dump.readSet table disk stream).table)
  /-- There is nothing to do. -/
  | stays (hlater : later = table)
  /-- It is about the log alone. -/
  | logs (file after : FileTable) (htable : table = .file file) (hlater : later = .file after)
      (hstep : Step (.file file) (.file after)) (hmemory : after.memory = file.memory)
      (hreadOnly : after.readOnly = file.readOnly)

/-- Every request comes down to one of these.  A table in memory has no log, and nothing is to be
done when it is to be synced or compacted. -/
theorem serving (table : Table) (disk : Disk) (request : Request) :
    Serving table disk request (table.serve disk request).table := by
  by_cases hlook : request.isLook = true
  · exact .looks hlook (looked_serve hlook table disk).1
  cases hchange : request.change? with
  | some call => exact .calls call hchange (serve_change hchange table disk)
  | none =>
    cases request with
    | bump name => exact .bumps name rfl (ofAnswer_eq _ _ _).1
    | read stream => exact .reads stream rfl (ofAnswer_eq _ _ _).1
    | sync =>
      cases table with
      | memory records => exact .stays rfl
      | file file =>
        exact .logs file _ rfl rfl (.sync file disk) (file.memory_sync disk)
          (file.readOnly_sync disk)
    | compact =>
      cases table with
      | memory records => exact .stays rfl
      | file file =>
        exact .logs file _ rfl (ofAnswer_eq _ _ _).1 (.compact file disk) (file.memory_compact disk)
          (file.readOnly_compact disk)
    | store | insert | delete | storeText | insertText | deleteText | addMember | storeHandle
      | storeInteger => cases hchange
    | _ => exact absurd rfl hlook

/-! ## What stays -/

/-- Is a table as it was, as far as this key is concerned? -/
structure Keeps (key : Bytes) (table later : Table) : Prop where
  /-- The table can be come by. -/
  made : later.Made
  /-- It takes changes if it did. -/
  writable : later.isWritable = table.isWritable
  /-- The key has its value. -/
  lookup : later.inMemory.contents.lookup key = table.inMemory.contents.lookup key

variable {key : Bytes} {table later last : Table}

theorem Keeps.trans (h : Keeps key table later) (hmore : Keeps key later last) :
    Keeps key table last where
  made := hmore.made
  writable := hmore.writable.trans h.writable
  lookup := hmore.lookup.trans h.lookup

/-- Looking at a table makes it no more and no less writable. -/
theorem Looked.isWritable_eq (h : Looked table later) : later.isWritable = table.isWritable := by
  induction h with
  | refl => rfl
  | @fetch there _ key ih => cases there <;> exact ih
  | @first there _ ih => cases there <;> exact ih
  | @next there _ ih => cases there <;> exact ih

theorem Looked.keeps (h : Looked table later) (hmade : table.Made) (key : Bytes) :
    Keeps key table later where
  made := h.made hmade
  writable := h.isWritable_eq
  lookup := by rw [h.sameRecords.contents_eq]

/-! ## Calls -/

theorem Made.perform (h : table.Made) (disk : Disk) (call : Call) :
    (table.perform disk call).2.1.Made := by
  cases call with
  | fetch key => exact h.step (.fetch _ _)
  | store key content => exact h.step (.store _ _ _ _)
  | insert key content => exact h.step (.insert _ _ _ _)
  | delete key => exact h.step (.delete _ _ _)
  | first => exact h.step (.first _)
  | next => exact h.step (.next _)
  | count => exact Looked.made (.count .refl) h

/-- A map keeps the value of a key when a call is about another. -/
theorem lookup_after_onRecords {contents : Contents} {call : Call} (hkey : call.key? ≠ some key) :
    (contents.after call.onRecords).lookup key = contents.lookup key := by
  have hne : ∀ other, call.key? = some other → key ≠ other := by
    rintro other hother rfl
    exact hkey hother
  cases call with
  | store other content => exact Finmap.lookup_insert_of_ne _ (hne other rfl)
  | insert other content =>
    simp only [Call.onRecords, Contents.after]
    split
    · rfl
    · exact Finmap.lookup_insert_of_ne _ (hne other rfl)
  | delete other => exact Finmap.lookup_erase_ne (hne other rfl)
  | fetch | first | next | count => rfl

/-- A table that refuses changes is only looked at. -/
theorem looked_perform {file : FileTable} (hreadOnly : file.readOnly = true) (disk : Disk)
    (call : Call) : Looked (.file file) ((Table.file file).perform disk call).2.1 := by
  have hhere := Follows.refl file
  cases call with
  | fetch key => exact Looked.refl.fetch key
  | store key content =>
    rw [perform, hhere.store_eq hreadOnly]
    exact .refl
  | insert key content =>
    rw [perform, hhere.insert_eq hreadOnly]
    exact .refl
  | delete key =>
    rw [perform, hhere.delete_eq hreadOnly]
    exact .refl
  | first => exact Looked.refl.first
  | next => exact Looked.refl.next
  | count => exact Looked.refl.count

/-- A table that takes changes answers a call as the map does that it holds, and makes of it what
the map makes of it. -/
theorem perform_writable (hmade : table.Made) (hwritable : table.isWritable = true) (disk : Disk)
    (call : Call) :
    (table.perform disk call).2.1.isWritable = true ∧
      table.inMemory.contents.Allows call.onRecords (table.perform disk call).1 ∧
      (table.perform disk call).2.1.inMemory.contents =
        table.inMemory.contents.after call.onRecords := by
  cases table with
  | memory records =>
    rw [perform_memory]
    exact ⟨rfl, (MemoryTable.perform_spec hmade.sound _).2⟩
  | file file =>
    have hopen : file.readOnly = false := by simpa [isWritable] using hwritable
    by_cases hcount : call = .count
    · subst hcount
      obtain ⟨last, hcounted, hlast, hsame, -⟩ := count_file hmade.sound
      simp only [perform, hcounted]
      exact ⟨by simp [isWritable, hlast, hopen], rfl, hsame.contents_eq⟩
    · obtain ⟨there, after, hperform, hmemory, hthere⟩ := perform_file hopen hmade.sound disk hcount
      obtain ⟨-, hallows, hcontents⟩ := MemoryTable.perform_spec hmade.sound call.onRecords
      rw [hperform]
      refine ⟨by simp [isWritable, hthere], hallows, ?_⟩
      show there.memory.contents = _
      rw [hmemory]
      exact hcontents

/-- So a call either does what the map does, or only looks. -/
theorem Made.perform_cases (h : table.Made) (disk : Disk) (call : Call) :
    (table.isWritable = true ∧ (table.perform disk call).2.1.isWritable = true ∧
      (table.perform disk call).2.1.inMemory.contents =
        table.inMemory.contents.after call.onRecords) ∨
    Looked table (table.perform disk call).2.1 := by
  cases hwritable : table.isWritable with
  | true =>
    obtain ⟨hstill, -, hcontents⟩ := perform_writable h hwritable disk call
    exact .inl ⟨rfl, hstill, hcontents⟩
  | false =>
    cases table with
    | memory records => cases hwritable
    | file file =>
      have hreadOnly : file.readOnly = true := by simpa [isWritable] using hwritable
      exact .inr (looked_perform hreadOnly disk call)

theorem Made.isWritable_perform (h : table.Made) (disk : Disk) (call : Call) :
    (table.perform disk call).2.1.isWritable = table.isWritable := by
  rcases h.perform_cases disk call with ⟨hwritable, hstill, -⟩ | hlooked
  · exact hstill.trans hwritable.symm
  · exact hlooked.isWritable_eq

/-- A call about another key leaves this one alone. -/
theorem Made.keeps_perform (h : table.Made) (disk : Disk) {call : Call}
    (hkey : call.key? ≠ some key) : Keeps key table (table.perform disk call).2.1 := by
  refine ⟨h.perform disk call, h.isWritable_perform disk call, ?_⟩
  rcases h.perform_cases disk call with ⟨-, -, hcontents⟩ | hlooked
  · rw [hcontents, lookup_after_onRecords hkey]
  · rw [hlooked.sameRecords.contents_eq]

/-! ## Deeds -/

/-- To bump a counter is to look it up, and then perhaps to store a count. -/
theorem Made.table_bump (h : table.Made) (disk : Disk) (name : String) :
    (table.bump disk name).table = (table.fetch (textKey name)).2 ∨
      ∃ content, (table.bump disk name).table =
        ((table.fetch (textKey name)).2.perform disk (.store (textKey name) content)).2.1 := by
  rw [bump_eq h.sound]
  split
  · exact .inl rfl
  · exact .inr ⟨_, rfl⟩

/-- A bump leaves a table that can be come by, and that takes changes if it did. -/
theorem Made.bump (h : table.Made) (disk : Disk) (name : String) :
    (table.bump disk name).table.Made ∧
      (table.bump disk name).table.isWritable = table.isWritable := by
  have hlooked : Looked table (table.fetch (textKey name)).2 := Looked.refl.fetch _
  have hmade := hlooked.made h
  rcases h.table_bump disk name with hsame | ⟨value, hstored⟩
  · rw [hsame]
    exact ⟨hmade, hlooked.isWritable_eq⟩
  · rw [hstored]
    exact ⟨hmade.perform disk _, (hmade.isWritable_perform disk _).trans hlooked.isWritable_eq⟩

theorem Made.keeps_bump (h : table.Made) (disk : Disk) {name : String} (hkey : textKey name ≠ key) :
    Keeps key table (table.bump disk name).table := by
  have hfetched := (Looked.refl.fetch (textKey name)).keeps h key
  rcases h.table_bump disk name with hsame | ⟨value, hstored⟩
  · rw [hsame]
    exact hfetched
  · rw [hstored]
    refine hfetched.trans (hfetched.made.keeps_perform disk ?_)
    exact fun hsame => hkey (Option.some.inj hsame)

/-- Records with other keys leave this one alone. -/
theorem Made.keeps_read {disk : Disk} {stream : Stream} (htakes : table.Takes stream.origin?)
    (hothers : ∀ entry, .record entry ∈ Dump.emitted (Dump.firstSet (stream.handsOut disk)) →
      entry.key ≠ key) : Keeps key table (Dump.readSet table disk stream).table := by
  obtain ⟨hreads, hleaves⟩ := @Dump.Turn.read_spec ⟨table, disk, stream⟩ htakes
  refine ⟨hleaves.takes.reachable.made, hleaves.takes.writable.trans htakes.writable.symm, ?_⟩
  have hnone : Contents.latest?
      (Dump.entriesOf (Dump.emitted (Dump.firstSet (stream.handsOut disk)))) key = none := by
    rw [Contents.latest?_eq_none_iff]
    intro entry hentry
    exact hothers entry (Dump.mem_entriesOf_iff.mp hentry)
  have hfound := hreads.found key
  rw [show Dump.Turn.bytes ⟨table, disk, stream⟩ = stream.handsOut disk from rfl, hnone] at hfound
  exact hfound

/-- A request that does not concern a key leaves it alone. -/
theorem Made.keeps_serve (h : table.Made) {disk : Disk} {request : Request}
    (hspares : (Deed.ask request).Spares key table disk) :
    Keeps key table (table.serve disk request).table := by
  cases serving table disk request with
  | looks _ hlooked => exact hlooked.keeps h key
  | calls call hchange hlater =>
    rw [hlater]
    refine h.keeps_perform disk ?_
    rw [← Request.key?_of_change? hchange]
    exact hspares.others
  | bumps name hrequest hlater =>
    rw [hlater]
    refine h.keeps_bump disk fun hsame => hspares.others ?_
    rw [hrequest, ← hsame]
    rfl
  | reads stream hrequest hlater =>
    obtain ⟨htakes, hothers⟩ := hspares.reads stream (congrArg Deed.ask hrequest)
    rw [hlater]
    exact Made.keeps_read htakes hothers
  | stays hlater =>
    rw [hlater]
    exact Looked.refl.keeps h key
  | logs file after htable hlater hstep hmemory hreadOnly =>
    subst htable
    rw [hlater]
    exact ⟨h.step hstep, by simp [isWritable, hreadOnly], by simp [inMemory, hmemory]⟩

/-- To write into the value of another key leaves this one alone. -/
theorem Made.keeps_patch {records : MemoryTable} (h : (Table.memory records).Made) {other : Bytes}
    (hkey : other ≠ key) (bytes : Bytes) :
    Keeps key (.memory records) (.memory (records.patch other bytes).2) := by
  have hsound : records.Sound := h.sound
  refine ⟨h.step (.patch records other bytes), rfl, ?_⟩
  show (records.patch other bytes).2.contents.lookup key = records.contents.lookup key
  cases hlookup : records.contents.lookup other with
  | none => rw [(hsound.patch_of_notMem (Finmap.lookup_eq_none.mp hlookup) bytes).2]
  | some value =>
    rw [(hsound.patch_of_lookup hlookup bytes).2, Finmap.lookup_insert_of_ne _ hkey.symm]

/-- Whatever is done with other keys, a key keeps its value. -/
theorem Made.keeps_doing (h : table.Made) {disk : Disk} {deed : Deed}
    (hspares : deed.Spares key table disk) : Keeps key table (table.doing disk deed).1 := by
  cases deed with
  | ask request => exact h.keeps_serve hspares
  | patch other bytes =>
    have hother : other ≠ key := fun hsame => hspares.others (congrArg some hsame)
    cases table with
    | memory records => exact h.keeps_patch hother bytes
    | file file => exact Looked.refl.keeps h key

end Table
end KeyTable
