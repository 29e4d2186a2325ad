import KeyTable.Proofs.Table.Counters
import KeyTable.Proofs.Table.Requests
import KeyTable.Proofs.Text.Utf8

/-!
# Typed values under text keys

Texts, handles and signed numbers are stored under text keys as bytes, and are read back from
these bytes and no others.  Different texts have different keys, so whatever is done with other
keys, a value stays; and a member of a set stays in it until it is removed.

* `SparedBy`, `Made.keeps_doingAll` — any number of deeds that do not concern a key.
* `Request.textKey?`, `sparedBy_typed` — typed changes of other texts are such deeds.
* `Lasts`, `lasts_store` — a value that is read back whatever is done with other keys.
* `Spells`, `spells_text`, `spells_integer`, `spells_handle` — from which bytes a shape of value
  is read, and why it is not read from others.
* `Holds`, `Holds.doingAll` — a key stays until it is removed.
* `typed_values_last` — all of this for every text key of every table.
-/

namespace KeyTable

/-- The bytes of a text are left when the zero byte behind them is dropped, even if they end in
zero bytes themselves. -/
theorem dropNul_textKey (text : String) : (textKey text).dropNul = Bytes.ofText text := by
  rw [Bytes.dropNul, if_pos (by rw [textKey, List.getLast?_concat]), textKey, List.dropLast_concat]

namespace Table

variable {table later : Table} {key : Bytes} {name : String} {disk : Disk} {deed : Deed}
  {deeds : List Deed}

/-! ## Deeds that leave a key alone -/

/-- Does each of these things leave the value of a key alone, while they are done one after the
other? -/
def SparedBy (key : Bytes) (table : Table) (disk : Disk) : List Deed → Prop
  | [] => True
  | deed :: deeds =>
    deed.Spares key table disk ∧
      SparedBy key (table.doing disk deed).1 (table.doing disk deed).2 deeds

/-- Then the key keeps its value over all of them. -/
theorem Made.keeps_doingAll (hmade : table.Made) (hspared : SparedBy key table disk deeds) :
    Keeps key table (table.doingAll disk deeds) := by
  induction deeds generalizing table disk with
  | nil => exact Looked.refl.keeps hmade key
  | cons deed deeds ih =>
    obtain ⟨hdeed, hrest⟩ := hspared
    have hkept := hmade.keeps_doing hdeed
    exact hkept.trans (ih hkept.made hrest)

/-- The text under which a typed request changes a value. -/
def Request.textKey? : Request → Option String
  | .storeText key _ | .insertText key _ | .deleteText key | .addMember key | .storeHandle key _
  | .storeInteger key _ | .bump key => some key
  | _ => none

theorem Request.key?_of_textKey? {request : Request} (h : request.textKey? = some name) :
    request.key? = some (textKey name) := by
  cases request <;> simp only [Request.textKey?, Option.some.injEq, reduceCtorEq] at h <;>
    · subst h
      rfl

/-- A typed change under another text leaves a text key alone. -/
theorem spares_typed {request : Request} {other : String} (h : request.textKey? = some other)
    (hne : other ≠ name) (table : Table) (disk : Disk) :
    (Deed.ask request).Spares (textKey name) table disk where
  others := by
    show request.key? ≠ _
    rw [Request.key?_of_textKey? h]
    exact fun hsame => hne (textKey_injective (Option.some.inj hsame))
  reads := by
    rintro stream hread
    cases hread
    cases h

/-- So do any number of them. -/
theorem sparedBy_typed {requests : List Request}
    (h : ∀ request ∈ requests, ∃ other, request.textKey? = some other ∧ other ≠ name)
    (table : Table) (disk : Disk) : SparedBy (textKey name) table disk (requests.map .ask) := by
  induction requests generalizing table disk with
  | nil => trivial
  | cons request requests ih =>
    obtain ⟨other, htext, hne⟩ := h request List.mem_cons_self
    exact ⟨spares_typed htext hne table disk,
      ih (fun request hmem => h request (List.mem_cons_of_mem _ hmem)) _ _⟩

/-! ## Values that last -/

/-- Is a value stored under a text that is read back later, whatever is done with other keys? -/
structure Lasts {α : Type} (name : String) (outcome : Outcome Table Unit)
    (read : Table → Except Fault α) (value : α) : Prop where
  /-- It is stored. -/
  stored : outcome.answer = .ok ()
  /-- It is read back after anything that leaves the key alone. -/
  kept : ∀ deeds, SparedBy (textKey name) outcome.table outcome.disk deeds →
    read (outcome.table.doingAll outcome.disk deeds) = .ok value
  /-- In particular, after typed changes under other texts. -/
  typed : ∀ requests : List Request,
    (∀ request ∈ requests, ∃ other, request.textKey? = some other ∧ other ≠ name) →
      read (outcome.table.doingAll outcome.disk (requests.map .ask)) = .ok value

/-- What is read from the bytes that are stored is read back. -/
theorem lasts_store {α : Type} {read : Table → Except Fault α} {value : α} {bytes : Bytes}
    (hmade : table.Made) (hwritable : table.isWritable = true) (disk : Disk)
    (hread : ∀ there : Table, there.Made →
      there.inMemory.contents.lookup (textKey name) = some bytes → read there = .ok value) :
    Lasts name ((table.store disk (textKey name) (.given bytes)).map fun _ => ()) read value := by
  obtain ⟨hanswer, hcontents⟩ := store_writable hmade hwritable disk (textKey name) (.given bytes)
  have hlater := hmade.step (.store table disk (textKey name) (.given bytes))
  generalize table.store disk (textKey name) (.given bytes) = outcome at hanswer hcontents hlater
  have hkept : ∀ deeds, SparedBy (textKey name) outcome.table outcome.disk deeds →
      read (outcome.table.doingAll outcome.disk deeds) = .ok value := by
    intro deeds hspared
    have hkeeps := hlater.keeps_doingAll hspared
    refine hread _ hkeeps.made ?_
    rw [hkeeps.lookup, hcontents, Finmap.lookup_insert]
    rfl
  refine ⟨?_, hkept, fun requests htyped => hkept _ (sparedBy_typed htyped _ _)⟩
  rw [Outcome.map, hanswer]
  rfl

/-! ## What is read from which bytes -/

/-- What comes of reading what is stored under a key as a value of some shape.  `Writes` tells
which bytes write a value, `Flawed` which bytes write none, and `Why` what is wrong with them. -/
structure Spells {α : Type} (stored : Option Bytes) (answer : Except Fault α)
    (Writes : Bytes → α → Prop) (Flawed : Bytes → Prop) (Why : Bytes → Corruption → Prop) :
    Prop where
  /-- Under a key that is absent, nothing is found. -/
  absent : stored = none → answer = .error .notFound
  /-- A value is read exactly from the bytes that write it. -/
  ok : ∀ bytes, stored = some bytes → ∀ value, answer = .ok value ↔ Writes bytes value
  /-- Reading fails with a corruption exactly if the bytes write no value. -/
  corrupt : ∀ bytes, stored = some bytes →
    ((∃ corruption, answer = .error (.corrupt corruption)) ↔ Flawed bytes)
  /-- It fails in no other way, and says what is wrong. -/
  why : ∀ bytes, stored = some bytes → ∀ fault, answer = .error fault →
    ∃ corruption, fault = .corrupt corruption ∧ Why bytes corruption

/-- To read a value is to fetch its bytes and to parse them. -/
theorem spells_of_parse {α : Type} {Writes : Bytes → α → Prop} {Flawed : Bytes → Prop}
    {Why : Bytes → Corruption → Prop} {parse : Bytes → Except Fault α}
    (hok : ∀ bytes value, parse bytes = .ok value ↔ Writes bytes value)
    (hflawed : ∀ bytes, Flawed bytes ↔ ∃ fault, parse bytes = .error fault)
    (hwhy : ∀ bytes fault, parse bytes = .error fault →
      ∃ corruption, fault = .corrupt corruption ∧ Why bytes corruption)
    (stored : Option Bytes) :
    Spells stored ((MemoryTable.found stored).bind parse) Writes Flawed Why where
  absent := by
    rintro rfl
    rfl
  ok := by
    rintro bytes rfl value
    exact hok bytes value
  corrupt := by
    rintro bytes rfl
    rw [hflawed]
    constructor
    · rintro ⟨corruption, hanswer⟩
      exact ⟨_, hanswer⟩
    · rintro ⟨fault, hanswer⟩
      obtain ⟨corruption, rfl, -⟩ := hwhy bytes fault hanswer
      exact ⟨corruption, hanswer⟩
  why := by
    rintro bytes rfl fault hanswer
    exact hwhy bytes fault hanswer

/-- Does a value write this text, with or without a zero byte behind it? -/
def WritesText (bytes : Bytes) (text : String) : Prop := bytes.dropNul = Bytes.ofText text

/-- The text that a value writes. -/
def readText (name : String) (value : Bytes) : Except Fault String :=
  (Utf8.decode value.dropNul).mapError fun flaw => .corrupt (.notText name flaw)

theorem readText_eq_ok_iff {value : Bytes} {text : String} :
    readText name value = .ok text ↔ WritesText value text := by
  rw [WritesText, ← Utf8.decode_eq_ok_iff, readText]
  cases Utf8.decode value.dropNul <;> simp [Except.mapError]

theorem readText_eq_error_iff {value : Bytes} {fault : Fault} :
    readText name value = .error fault ↔
      ∃ flaw, Utf8.decode value.dropNul = .error flaw ∧ .corrupt (.notText name flaw) = fault := by
  rw [readText]
  cases Utf8.decode value.dropNul <;> simp [Except.mapError]

/-- A text is read from its bytes, and what is no text is corrupt. -/
theorem spells_text (h : table.inMemory.Sound) (name : String) :
    Spells (table.inMemory.contents.lookup (textKey name)) (table.fetchText name).1 WritesText
      (fun bytes => ¬ ∃ text, WritesText bytes text)
      (fun bytes corruption =>
        ∃ flaw, corruption = .notText name flaw ∧ Utf8.Flawed bytes.dropNul flaw) := by
  have hanswer : (table.fetchText name).1 =
      (MemoryTable.found (table.inMemory.contents.lookup (textKey name))).bind (readText name) := by
    rw [fetchText, fetch_eq_found h]
    rfl
  rw [hanswer]
  refine spells_of_parse (fun bytes text => readText_eq_ok_iff) (fun bytes => ?_) ?_ _
  · rw [not_exists]
    constructor
    · intro hno
      obtain ⟨flaw, hflaw⟩ := Utf8.exists_flaw_iff.mpr hno
      exact ⟨_, readText_eq_error_iff.mpr ⟨flaw, hflaw, rfl⟩⟩
    · rintro ⟨fault, herror⟩
      obtain ⟨flaw, hflaw, -⟩ := readText_eq_error_iff.mp herror
      exact Utf8.exists_flaw_iff.mp ⟨flaw, hflaw⟩
  · intro bytes fault herror
    obtain ⟨flaw, hflaw, rfl⟩ := readText_eq_error_iff.mp herror
    exact ⟨_, rfl, flaw, rfl, Utf8.flawed_of_decode hflaw⟩

/-- A number is read from its eight bytes, and any other width is corrupt. -/
theorem spells_number {α : Type} {ofNumber : UInt64 → α} {toNumber : α → UInt64}
    (hinverse : ∀ n x, ofNumber n = x ↔ n = toNumber x) (shape : NumberShape)
    (stored : Option Bytes) :
    Spells stored (((MemoryTable.found stored).bind (readNumber shape)).map ofNumber)
      (fun bytes x => bytes = numberValue (toNumber x)) (fun bytes => bytes.length ≠ 8)
      (fun bytes corruption => corruption = .wrongWidth shape bytes.length) := by
  have hanswer : ((MemoryTable.found stored).bind (readNumber shape)).map ofNumber =
      (MemoryTable.found stored).bind fun bytes => (readNumber shape bytes).map ofNumber := by
    cases stored <;> rfl
  have hfailed : ∀ bytes fault, (readNumber shape bytes).map ofNumber = .error fault ↔
      bytes.length ≠ 8 ∧ fault = .corrupt (.wrongWidth shape bytes.length) := by
    intro bytes fault
    rw [← readNumber_eq_error_iff]
    cases readNumber shape bytes <;> simp [Except.map]
  rw [hanswer]
  refine spells_of_parse (fun bytes x => ?_) (fun bytes => ?_) (fun bytes fault herror => ?_) _
  · have hread : readNumber shape bytes = .ok (toNumber x) ↔ bytes = numberValue (toNumber x) :=
      readNumber_eq_ok_iff
    rw [← hread]
    cases readNumber shape bytes <;> simp [Except.map, hinverse]
  · simp only [hfailed, exists_and_left, exists_eq, and_true]
  · exact ⟨_, ((hfailed bytes fault).mp herror).2, rfl⟩

theorem spells_handle (h : table.inMemory.Sound) (name : String) :
    Spells (table.inMemory.contents.lookup (textKey name)) (table.fetchHandle name).1
      (fun bytes handle => bytes = numberValue handle) (fun bytes => bytes.length ≠ 8)
      (fun bytes corruption => corruption = .wrongWidth .handle bytes.length) := by
  have hinverse : ∀ n x : UInt64, id n = x ↔ n = id x := fun _ _ => Iff.rfl
  have hspells := spells_number hinverse .handle (table.inMemory.contents.lookup (textKey name))
  have hanswer : (table.fetchHandle name).1 = Except.map id
      ((MemoryTable.found (table.inMemory.contents.lookup (textKey name))).bind
        (readNumber .handle)) := by
    rw [fetchHandle, fetch_eq_found h, Except.map_id]
    rfl
  rw [hanswer]
  exact hspells

theorem spells_integer (h : table.inMemory.Sound) (name : String) :
    Spells (table.inMemory.contents.lookup (textKey name)) (table.fetchInteger name).1
      (fun bytes n => bytes = numberValue n.toUInt64) (fun bytes => bytes.length ≠ 8)
      (fun bytes corruption => corruption = .wrongWidth .integer bytes.length) := by
  have hinverse : ∀ (n : UInt64) (x : Int64), n.toInt64 = x ↔ n = x.toUInt64 := by
    intro n x
    constructor
    · rintro rfl
      rw [UInt64.toUInt64_toInt64]
    · rintro rfl
      rw [Int64.toInt64_toUInt64]
  have hanswer : (table.fetchInteger name).1 =
      ((MemoryTable.found (table.inMemory.contents.lookup (textKey name))).bind
        (readNumber .integer)).map UInt64.toInt64 := by
    rw [fetchInteger, fetch_eq_found h]
  rw [hanswer]
  exact spells_number hinverse .integer _

/-! ## Keys that stay -/

/-- Does a deed remove a key? -/
def Deed.Removes (key : Bytes) (deed : Deed) : Prop :=
  ∃ request, deed = .ask request ∧ request.change? = some (.delete key)

/-- Is a key in a table that can be come by? -/
structure Holds (key : Bytes) (table : Table) : Prop where
  /-- The table can be come by. -/
  made : table.Made
  /-- The key is there. -/
  mem : key ∈ table.inMemory.contents

/-- A key stays in a map unless it is removed. -/
theorem mem_after_onRecords {contents : Contents} {call : Call} (hmem : key ∈ contents)
    (hkeep : call ≠ .delete key) : key ∈ contents.after call.onRecords := by
  cases call with
  | store other content => exact Finmap.mem_insert.mpr (.inr hmem)
  | insert other content =>
    simp only [Call.onRecords, Contents.after]
    split
    · exact hmem
    · exact Finmap.mem_insert.mpr (.inr hmem)
  | delete other =>
    exact Finmap.mem_erase.mpr ⟨fun hsame => hkeep (congrArg Call.delete hsame.symm), hmem⟩
  | fetch | first | next | count => exact hmem

namespace Holds

theorem looked (h : Holds key table) (hlooked : Looked table later) : Holds key later :=
  ⟨hlooked.made h.made, hlooked.sameRecords.contents_eq ▸ h.mem⟩

theorem perform (h : Holds key table) (disk : Disk) {call : Call} (hkeep : call ≠ .delete key) :
    Holds key (table.perform disk call).2.1 := by
  rcases h.made.perform_cases disk call with ⟨-, -, hcontents⟩ | hlooked
  · refine ⟨h.made.perform disk call, ?_⟩
    rw [hcontents]
    exact mem_after_onRecords h.mem hkeep
  · exact h.looked hlooked

/-- Only a delete can remove a key. -/
theorem stable : Stable (Holds key) where
  made := Holds.made
  fetch h other := h.looked (.fetch .refl other)
  store h disk other content :=
    have hkeep : Call.store other content ≠ .delete key := nofun
    h.perform disk hkeep
  log := by
    intro file after h hstep hmemory
    refine ⟨h.made.step hstep, ?_⟩
    show key ∈ after.memory.contents
    rw [hmemory]
    exact h.mem

theorem serve (h : Holds key table) (disk : Disk) {request : Request}
    (hkeep : request.change? ≠ some (.delete key)) :
    Holds key (table.serve disk request).table := by
  refine stable.serve h (fun hlook => h.looked (looked_serve hlook table disk).1) ?_
  intro call hchange
  refine h.perform disk ?_
  rintro rfl
  exact hkeep hchange

/-- To write into the value of a key removes no key. -/
theorem patch {records : MemoryTable} (h : Holds key (.memory records)) (other bytes : Bytes) :
    Holds key (.memory (records.patch other bytes).2) := by
  refine ⟨h.made.step (.patch records other bytes), ?_⟩
  have hsound : records.Sound := h.made.sound
  have hmem : key ∈ records.contents := h.mem
  show key ∈ (records.patch other bytes).2.contents
  cases hlookup : records.contents.lookup other with
  | none => rwa [(hsound.patch_of_notMem (Finmap.lookup_eq_none.mp hlookup) bytes).2]
  | some value =>
    rw [(hsound.patch_of_lookup hlookup bytes).2]
    exact Finmap.mem_insert.mpr (.inr hmem)

/-- A key stays until it is removed. -/
theorem doing (h : Holds key table) {disk : Disk} (hkeep : ¬ deed.Removes key) :
    Holds key (table.doing disk deed).1 := by
  cases deed with
  | ask request => exact h.serve disk fun hchange => hkeep ⟨request, rfl, hchange⟩
  | patch other bytes =>
    cases table with
    | memory records => exact h.patch other bytes
    | file file => exact h

theorem doingAll (h : Holds key table) {disk : Disk} (hkeep : ∀ deed ∈ deeds, ¬ deed.Removes key) :
    Holds key (table.doingAll disk deeds) := by
  induction deeds generalizing table disk with
  | nil => exact h
  | cons deed deeds ih =>
    exact ih (h.doing (hkeep deed List.mem_cons_self)) fun deed hmem =>
      hkeep deed (List.mem_cons_of_mem _ hmem)

/-- A text is found in a set if its key is there. -/
theorem hasMember (h : Holds (textKey name) table) : (table.hasMember name).1 = true := by
  rw [Table.hasMember, fetch_eq_found h.made.sound]
  obtain ⟨value, hlookup⟩ := Finmap.mem_iff.mp h.mem
  rw [hlookup]
  rfl

end Holds

/-! ## All of it -/

/-- What can be said of typed values under a text key of a table. -/
structure TypedValues (table : Table) (name : String) : Prop where
  /-- A text lasts, and no text lasts as the empty one. -/
  text : table.isWritable = true → ∀ disk text?,
    Lasts name (table.storeText disk name text?) (fun later => (later.fetchText name).1)
      (text?.getD "")
  /-- A signed number lasts. -/
  integer : table.isWritable = true → ∀ disk n,
    Lasts name (table.storeInteger disk name n) (fun later => (later.fetchInteger name).1) n
  /-- A handle lasts. -/
  handle : table.isWritable = true → ∀ disk handle,
    Lasts name (table.storeHandle disk name handle) (fun later => (later.fetchHandle name).1) handle
  /-- A text is read from its bytes, with or without a zero byte behind them. -/
  fetchText : Spells (table.inMemory.contents.lookup (textKey name)) (table.fetchText name).1
    WritesText (fun bytes => ¬ ∃ text, WritesText bytes text)
    (fun bytes corruption =>
      ∃ flaw, corruption = .notText name flaw ∧ Utf8.Flawed bytes.dropNul flaw)
  /-- A signed number is read from the eight bytes of its two's complement. -/
  fetchInteger : Spells (table.inMemory.contents.lookup (textKey name)) (table.fetchInteger name).1
    (fun bytes n => bytes = numberValue n.toUInt64) (fun bytes => bytes.length ≠ 8)
    (fun bytes corruption => corruption = .wrongWidth .integer bytes.length)
  /-- A handle is read from its eight bytes. -/
  fetchHandle : Spells (table.inMemory.contents.lookup (textKey name)) (table.fetchHandle name).1
    (fun bytes handle => bytes = numberValue handle) (fun bytes => bytes.length ≠ 8)
    (fun bytes corruption => corruption = .wrongWidth .handle bytes.length)
  /-- A text is new in a set if its key was absent. -/
  added : table.isWritable = true → ∀ disk,
    (table.addMember disk name).answer = .ok (decide (textKey name ∉ table.inMemory.contents))
  /-- It is in the set until its key is removed, whatever else is done. -/
  member : table.isWritable = true → ∀ disk deeds,
    (∀ deed ∈ deeds, ¬ deed.Removes (textKey name)) →
      (((table.addMember disk name).table.doingAll (table.addMember disk name).disk
        deeds).hasMember name).1 = true
  /-- It is not in the set any more when its key is removed. -/
  removed : table.isWritable = true → ∀ disk,
    ((table.deleteText disk name).table.hasMember name).1 = false

/-- No text is written by no bytes, which are read as the empty text. -/
theorem writesText_textValue (text? : Option String) :
    WritesText (textValue text?) (text?.getD "") := by
  cases text? with
  | none => rfl
  | some text => exact dropNul_textKey text

/-- A text is new in a set if its key is absent, and its key is there then. -/
theorem Made.addMember (h : table.Made) (hwritable : table.isWritable = true) (disk : Disk)
    (name : String) :
    (table.addMember disk name).answer = .ok (decide (textKey name ∉ table.inMemory.contents)) ∧
      Holds (textKey name) (table.addMember disk name).table := by
  obtain ⟨-, hallows, hcontents⟩ :=
    perform_writable h hwritable disk (.insert (textKey name) (.given []))
  have hanswer : (table.insert disk (textKey name) (.given [])).answer =
      table.inMemory.contents.added (textKey name) [] := MemoryTable.Reply.value.inj hallows
  refine ⟨?_, h.perform disk (.insert (textKey name) (.given [])), ?_⟩
  · rw [Table.addMember, hanswer, Contents.added]
    by_cases hmem : textKey name ∈ table.inMemory.contents <;> simp [hmem]
  · show textKey name ∈ (table.insert disk (textKey name) (.given [])).table.inMemory.contents
    have hafter : (table.insert disk (textKey name) (.given [])).table.inMemory.contents =
        table.inMemory.contents.after (.insert (textKey name) (.given [])) := hcontents
    rw [hafter, Contents.after]
    split
    · next hmem => exact hmem
    · exact Finmap.mem_insert.mpr (.inl rfl)

/-- Typed values last under every text key, are read from the right bytes and from no others, and
members stay in their set. -/
theorem typed_values_last (h : table.Made) (name : String) : TypedValues table name where
  text := by
    intro hwritable disk text?
    refine lasts_store h hwritable disk ?_
    intro there hmade hlookup
    exact ((spells_text hmade.sound name).ok _ hlookup _).mpr (writesText_textValue text?)
  integer := by
    intro hwritable disk n
    refine lasts_store h hwritable disk ?_
    intro there hmade hlookup
    exact ((spells_integer hmade.sound name).ok _ hlookup _).mpr rfl
  handle := by
    intro hwritable disk handle
    refine lasts_store h hwritable disk ?_
    intro there hmade hlookup
    exact ((spells_handle hmade.sound name).ok _ hlookup _).mpr rfl
  fetchText := spells_text h.sound name
  fetchInteger := spells_integer h.sound name
  fetchHandle := spells_handle h.sound name
  added := by
    intro hwritable disk
    exact (h.addMember hwritable disk name).1
  member := by
    intro hwritable disk deeds hkeep
    exact ((h.addMember hwritable disk name).2.doingAll hkeep).hasMember
  removed := by
    intro hwritable disk
    obtain ⟨-, -, hcontents⟩ := perform_writable h hwritable disk (.delete (textKey name))
    have hafter : (table.deleteText disk name).table.inMemory.contents =
        table.inMemory.contents.erase (textKey name) := hcontents
    have hmade : (table.deleteText disk name).table.Made := h.perform disk (.delete (textKey name))
    rw [Table.hasMember, fetch_eq_found hmade.sound, hafter, Finmap.lookup_erase]
    rfl

/-- A text that ends in a zero byte stays under a key that ends in one, while a text, a counter
and a member come and go under keys that differ from it in zero bytes alone. -/
theorem typed_values_last_nul :
    let table : Table := .file (.anonymous {})
    let stored := table.storeText .empty "a\x00" (some "x\x00")
    let requests : List Request := [.storeText "a" none, .bump "a\x00\x00",
      .addMember "\x00a\x00", .deleteText "a"]
    table.Made ∧ table.isWritable = true ∧
      (∀ request ∈ requests, ∃ other, request.textKey? = some other ∧ other ≠ "a\x00") ∧
      ((stored.table.doingAll stored.disk (requests.map .ask)).fetchText "a\x00").1 =
        .ok "x\x00" := by
  intro table stored requests
  have hmade : table.Made := .file {}
  have hothers : ∀ request ∈ requests,
      ∃ other, request.textKey? = some other ∧ other ≠ "a\x00" := by
    simp [requests, Request.textKey?]
  exact ⟨hmade, rfl, hothers,
    ((typed_values_last hmade "a\x00").text rfl .empty (some "x\x00")).typed requests hothers⟩

end Table
end KeyTable
