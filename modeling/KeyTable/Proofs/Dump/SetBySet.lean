import KeyTable.Dump.File
import KeyTable.Proofs.Dump.Reading
import KeyTable.Proofs.Dump.Sets
import KeyTable.Proofs.Log.Appender
import KeyTable.Proofs.Table.Reachable

/-!
# Reading set by set

A stream that holds several sets is read by reading one set after the other.  Each time a
fresh decoder is at work, and still nothing is lost and nothing is read twice: what the
sets bring is what one decoder hands on of the whole stream, cut at the ends of sets.
The tables may be of either kind, as long as they take changes and do not log them to the
file that the stream reads from (`Table.Takes`).

* `Table.Takes.store`, `deliver_entries` — such tables store all records, and the stream has
  the same to read as before.
* `readsLines` — reading lines stores what they complete up to the first terminator.
* `Turn.read_spec` — so one set is read, and the others are left.
* `Turn.after_spec`, `Turn.reads_after` — so sets are read one by one, whatever a caller does
  in between.
* `Turn.found_startingAfresh` — with a fresh table for every set, each is in a table of its own.
* `Turn.sets_read_one_by_one` — all of this for a whole stream.
-/

namespace KeyTable

/-! ## Tables that take records -/

namespace Table

/-- The file that a table logs its changes to, if it logs them. -/
def logFile? : Table → Option Nat
  | .memory _ => none
  | .file table => table.log.map (·.file)

/-- Can a table be changed? -/
def isWritable : Table → Bool
  | .memory _ => true
  | .file table => !table.readOnly

/-- Can records be stored in a table while a stream reads from this file, if it is a file? -/
structure Takes (origin? : Option Nat) (table : Table) : Prop where
  /-- The table can be come by. -/
  reachable : table.Reachable
  /-- It does not refuse changes. -/
  writable : table.isWritable = true
  /-- It does not log them to the file that the stream reads from. -/
  apart : ∀ number, origin? = some number → table.logFile? ≠ some number

variable {origin? : Option Nat} {table : Table}

/-- A fresh table in memory takes records, whatever the stream reads from. -/
theorem takes_empty (origin? : Option Nat) : (memory .empty).Takes origin? where
  reachable := @Reachable.created .memory {} _ rfl
  writable := rfl
  apart := fun _ _ => nofun

/-- To log a change leaves a file table in its file, and other files as they are. -/
theorem record_confined (table : FileTable) (disk : Disk) (change : Change) :
    (Table.file (table.record disk change).1).logFile? = (Table.file table).logFile? ∧
      (table.record disk change).1.readOnly = table.readOnly ∧
      ∀ number, (Table.file table).logFile? ≠ some number →
        (table.record disk change).2.contents number = disk.contents number := by
  unfold FileTable.record
  cases hlog : table.log with
  | none => exact ⟨rfl, rfl, fun _ _ => rfl⟩
  | some log =>
    have hconfined := log.confined_append disk (Log.encodeFrame change)
    refine ⟨?_, rfl, ?_⟩
    · simp [logFile?, hlog, hconfined.file]
    · intro number hnumber
      refine hconfined.others number ?_
      rintro rfl
      exact hnumber (by simp [logFile?, hlog])

/-- A record is stored, and the stream has the same to read as before. -/
theorem Takes.store (h : table.Takes origin?) (disk : Disk) (key value : Bytes) :
    (table.store disk key (.given value)).answer = .ok value ∧
      (table.store disk key (.given value)).table.Takes origin? ∧
      (table.store disk key (.given value)).table.inMemory.contents =
        table.inMemory.contents.insert key value ∧
      Stream.Alike origin? (table.store disk key (.given value)).disk disk := by
  have hreachable := h.reachable.store disk key (.given value)
  cases table with
  | memory table =>
    obtain ⟨hanswer, hcontents⟩ := MemoryTable.Sound.store_spec h.reachable.sound key (.given value)
    exact ⟨hanswer, ⟨hreachable, rfl, fun _ _ => nofun⟩, hcontents, Stream.Alike.refl _ _⟩
  | file table =>
    have hwritable : table.readOnly = false := by simpa [isWritable] using h.writable
    obtain ⟨hanswer, hcontents⟩ := MemoryTable.Sound.store_spec h.reachable.sound key (.given value)
    obtain ⟨hfile, hopen, hothers⟩ := record_confined table disk (.store key value)
    have hstore : table.store disk key (.given value) =
        table.commit disk (.store key value) (·.store key (.given value)) := by
      rw [FileTable.store, hwritable]
      rfl
    obtain ⟨hsame, hmemory⟩ :=
      table.commit_memory disk (.store key value) (·.store key (.given value))
    rw [← hstore] at hsame hmemory
    have hkept : (Table.file table).store disk key (.given value) =
        ⟨(table.store disk key (.given value)).answer,
          .file (table.store disk key (.given value)).table,
          (table.store disk key (.given value)).disk⟩ := rfl
    have hlog : (Table.file (table.store disk key (.given value)).table).logFile? =
        (Table.file table).logFile? := by
      rw [hstore]
      exact hfile
    refine ⟨hsame.trans hanswer, ⟨hreachable, ?_, ?_⟩, ?_, ?_⟩
    · rw [hkept, hstore]
      exact congrArg (!·) (hopen.trans hwritable)
    · intro number hnumber
      rw [hkept, hlog]
      exact h.apart number hnumber
    · rw [hkept]
      exact (congrArg MemoryTable.contents hmemory).trans hcontents
    · intro number hnumber
      rw [hkept, hstore]
      exact hothers number (h.apart number hnumber)

end Table

namespace Dump

open Grammar (linesOf linesOf_of_ne_nil isTerminator)
open Contents (stores latest?)

/-! ## Handing records on -/

/-- How a table comes on when records are stored in it, while a stream reads from this file,
if it is a file. -/
structure Stores (origin? : Option Nat) (before : Loading) (entries : List Entry)
    (after : Loading) : Prop where
  /-- The table still takes records. -/
  takes : after.table.Takes origin?
  /-- The records overlay what the table held. -/
  contents : after.table.inMemory.contents =
    (stores entries).foldl Contents.apply before.table.inMemory.contents
  /-- The stream has the same to read as before. -/
  alike : Stream.Alike origin? after.disk before.disk
  /-- The records are counted. -/
  records : after.summary.records = before.summary.records + entries.length
  /-- The end of the set is not noted by that. -/
  endOfSet : after.summary.endOfSet = before.summary.endOfSet

section Stores

variable {origin? : Option Nat} {loading second third : Loading} {entries others : List Entry}

theorem Stores.refl (h : loading.table.Takes origin?) : Stores origin? loading [] loading :=
  ⟨h, rfl, Stream.Alike.refl _ _, rfl, rfl⟩

theorem Stores.trans (h : Stores origin? loading entries second)
    (hmore : Stores origin? second others third) :
    Stores origin? loading (entries ++ others) third where
  takes := hmore.takes
  contents := by rw [hmore.contents, h.contents, stores, stores, stores, List.map_append,
    List.foldl_append]
  alike := hmore.alike.trans h.alike
  records := by rw [hmore.records, h.records, List.length_append, Nat.add_assoc]
  endOfSet := hmore.endOfSet.trans h.endOfSet

/-- A record that is handed to a table is stored. -/
theorem accept_record (h : loading.table.Takes origin?) (entry : Entry) :
    ∃ after, loading.accept (.record entry) = (.ok (), after) ∧
      Stores origin? loading [entry] after := by
  obtain ⟨hanswer, htakes, hcontents, halike⟩ := h.store loading.disk entry.key entry.value
  refine ⟨_, by simp only [Loading.accept, hanswer]; rfl, ?_⟩
  exact ⟨htakes, hcontents, halike, rfl, rfl⟩

/-- Handing records to a table stores them all. -/
theorem deliver_entries (h : loading.table.Takes origin?) (entries : List Entry) :
    ∃ after, deliver Loading.accept (entries.map Item.record) loading = (.ok (), after) ∧
      Stores origin? loading entries after := by
  induction entries generalizing loading with
  | nil => exact ⟨loading, rfl, .refl h⟩
  | cons entry entries ih =>
    obtain ⟨second, haccept, hfirst⟩ := accept_record h entry
    obtain ⟨after, hdeliver, hothers⟩ := ih hfirst.takes
    refine ⟨after, ?_, hfirst.trans hothers⟩
    rw [List.map_cons, deliver_cons_of_ok haccept, hdeliver]

end Stores

/-! ## Reading lines -/

/-- What comes of reading the lines of a set, up to its terminator or the end of the stream. -/
structure ReadsLines (loading : Loading) (stream : Stream) (entries : List Entry)
    (loaded : Loaded) : Prop where
  /-- The records of the set are stored. -/
  stores : ∃ after : Loading, Stores stream.origin? loading entries after ∧
    loaded.table = after.table ∧ loaded.disk = after.disk
  /-- They are counted, and the end of the set is noted. -/
  answer : loaded.answer = .ok ⟨loading.summary.records + entries.length,
    isEnded (stream.handsOut loading.disk)⟩
  /-- What is behind the set is left to be read. -/
  left : loaded.rest.handsOut loaded.disk = laterSets (stream.handsOut loading.disk)
  /-- The stream still reads from the same. -/
  origin : loaded.rest.origin? = stream.origin?

/-- At the end of the stream, the record being collected is stored. -/
theorem readsLines_of_end {pending : Option Pending} {loading : Loading} {stream : Stream}
    {entries : List Entry} (htakes : loading.table.Takes stream.origin?)
    (hopen : loading.summary.endOfSet = false) (hnil : stream.handsOut loading.disk = [])
    (hlast : completed pending = entries.map Item.record) (limit : Nat) :
    ReadsLines loading stream entries (readLines (limit + 1) ⟨pending, []⟩ loading stream) := by
  obtain ⟨after, hdeliver, hstores⟩ := deliver_entries htakes entries
  have hfinish : Decoder.finish ⟨pending, []⟩ Loading.accept loading = ⟨.ok (), {}, after, []⟩ := by
    simp only [Decoder.finish, Decoder.feedRest, if_true, hlast, hdeliver]
  rw [readLines, Stream.readLine?_of_handsOut_eq_nil hnil, hfinish]
  refine ⟨⟨after, hstores, rfl, rfl⟩, ?_, ?_, rfl⟩
  · show Except.ok after.summary = _
    rw [hnil, isEnded_nil, ← hopen, ← hstores.endOfSet, ← hstores.records]
  · show stream.handsOut after.disk = _
    rw [Stream.handsOut_congr hstores.alike, hnil, laterSets_nil]

/-- A line whose items are taken ends the reading, or the lines behind it are read. -/
theorem readLines_of_readLine? {pending : Option Pending} {loading after : Loading}
    {stream behind : Stream} {line : Bytes}
    (hread : stream.readLine? loading.disk = some (line, behind))
    (hdeliver : deliver Loading.accept (step pending line).items loading = (.ok (), after))
    (limit : Nat) :
    readLines (limit + 1) ⟨pending, []⟩ loading stream =
      if after.summary.endOfSet then
        .ofFed ⟨.ok (), ⟨(step pending line).pending, []⟩, after, (step pending line).notices⟩ behind
      else
        (readLines limit ⟨(step pending line).pending, []⟩ after behind).behind
          (step pending line).notices := by
  have hfed := @Decoder.feedLine_of_ok _ _ Loading.accept ⟨pending, []⟩ _ _ _ hdeliver
  rw [readLines, hread]
  simp only [hfed]
  rfl

/-- Reading lines stores what they complete up to the first terminator, and leaves what is
behind it.  The induction is on the limit, of which each line takes one. -/
theorem readsLines {limit : Nat} {pending : Option Pending} {loading : Loading} {stream : Stream}
    {entries : List Entry} (htakes : loading.table.Takes stream.origin?)
    (hopen : loading.summary.endOfSet = false)
    (hlimit : (stream.handsOut loading.disk).length < limit)
    (hentries : decoded pending
      ((linesOf (stream.handsOut loading.disk)).takeWhile (!isTerminator ·)) =
        entries.map Item.record) :
    ReadsLines loading stream entries (readLines limit ⟨pending, []⟩ loading stream) := by
  induction limit generalizing pending loading stream entries with
  | zero => omega
  | succ limit ih =>
    by_cases hnil : stream.handsOut loading.disk = []
    · rw [hnil] at hentries
      exact readsLines_of_end htakes hopen hnil hentries limit
    obtain ⟨behind, hread, hbehind, -, horigin⟩ := Stream.readLine?_of_handsOut_ne_nil hnil
    -- storing records does not change what the stream hands out
    have hleft : ∀ {after : Loading} {records : List Entry},
        Stores stream.origin? loading records after →
          behind.handsOut after.disk = (stream.handsOut loading.disk).behindLine := by
      intro after records hstores
      rw [Stream.handsOut_congr (horigin.symm ▸ hstores.alike), hbehind]
      rfl
    rw [linesOf_of_ne_nil hnil, List.takeWhile_cons] at hentries
    cases hterminator : isTerminator (stream.handsOut loading.disk).upToNewline with
    | true =>
      rw [hterminator] at hentries
      have hlast : completed pending = entries.map Item.record := hentries
      obtain ⟨after, hdeliver, hstores⟩ := deliver_entries htakes entries
      have hitems : deliver Loading.accept
          (step pending (stream.handsOut loading.disk).upToNewline).items loading =
            (.ok (), { after with summary := ⟨after.summary.records, true⟩ }) := by
        rw [step_of_isTerminator hterminator, hlast, deliver_append _ _ _ hdeliver]
        rfl
      rw [readLines_of_readLine? hread hitems, if_pos rfl]
      refine ⟨⟨after, hstores, rfl, rfl⟩, ?_, ?_, horigin⟩
      · rw [isEnded_of_ne_nil hnil, hterminator, ← hstores.records]
        rfl
      · rw [laterSets_of_ne_nil hnil, hterminator, if_pos rfl]
        exact hleft hstores
    | false =>
      rw [hterminator, Bool.not_false, if_pos rfl, decoded_cons] at hentries
      obtain ⟨first, others, rfl, hfirst, hothers⟩ := List.map_eq_append_iff.mp hentries.symm
      obtain ⟨after, hdeliver, hstores⟩ := deliver_entries htakes first
      rw [hfirst] at hdeliver
      have hlength : (behind.handsOut after.disk).length < limit := by
        have hshort := Bytes.length_behindLine_lt hnil
        rw [hleft hstores]
        omega
      have hlater := ih (horigin.symm ▸ hstores.takes) (hstores.endOfSet.trans hopen) hlength
        (by rw [hleft hstores]; exact hothers.symm)
      have hgoesOn : ¬ after.summary.endOfSet = true := by simp [hstores.endOfSet, hopen]
      rw [readLines_of_readLine? hread hdeliver, if_neg hgoesOn]
      obtain ⟨⟨final, hfinal, htable, hdisk⟩, hanswer, hrest, hsame⟩ := hlater
      rw [horigin] at hfinal
      rw [hleft hstores] at hanswer hrest
      refine ⟨⟨final, hstores.trans hfinal, htable, hdisk⟩, ?_, ?_, hsame.trans horigin⟩
      · rw [isEnded_of_ne_nil hnil, hterminator, Bool.false_or, List.length_append, ← Nat.add_assoc,
          ← hstores.records]
        exact hanswer
      · rw [laterSets_of_ne_nil hnil, hterminator]
        exact hrest

/-! ## One set -/

/-- What is at hand when a set is to be read. -/
structure Turn where
  /-- The table that the records are to go into. -/
  table : Table
  /-- The disk. -/
  disk : Disk
  /-- The stream that the set is read from. -/
  stream : Stream

namespace Turn

/-- What the stream hands out. -/
def bytes (turn : Turn) : Bytes := turn.stream.handsOut turn.disk

/-- Reads the set. -/
def read (turn : Turn) : Loaded := readSet turn.table turn.disk turn.stream

/-- Are these the records that are read, and does a terminator end them if `ended` says so? -/
structure Reads (turn : Turn) (entries : List Entry) (ended : Bool) : Prop where
  /-- The records are counted, and the terminator is noted. -/
  answer : turn.read.answer = .ok ⟨entries.length, ended⟩
  /-- The last record of a key wins, and keys that no record has keep their values. -/
  found : ∀ key, turn.read.table.inMemory.contents.lookup key =
    (latest? entries key).or (turn.table.inMemory.contents.lookup key)

/-- A fresh table holds the records that are read, and nothing else. -/
theorem Reads.found_of_fresh {turn : Turn} {entries : List Entry} {ended : Bool}
    (h : turn.Reads entries ended) (hfresh : turn.table = .memory .empty) (key : Bytes) :
    turn.read.table.inMemory.contents.lookup key = latest? entries key := by
  have hempty : turn.table.inMemory = .withBuckets defaultBuckets := by
    rw [hfresh]
    rfl
  rw [h.found, hempty, MemoryTable.contents_withBuckets, Finmap.lookup_empty, Option.or_none]

/-- What is left when a set has been read. -/
structure Leaves (turn : Turn) (loaded : Loaded) : Prop where
  /-- The table still takes records. -/
  takes : loaded.table.Takes turn.stream.origin?
  /-- The other sets are left. -/
  left : loaded.rest.handsOut loaded.disk = laterSets turn.bytes
  /-- The stream still reads from the same. -/
  origin : loaded.rest.origin? = turn.stream.origin?

/-- The first set is read as a whole, and nothing of the others. -/
theorem read_spec {turn : Turn} (htakes : turn.table.Takes turn.stream.origin?) :
    turn.Reads (entriesOf (emitted (firstSet turn.bytes))) (isEnded turn.bytes) ∧
      turn.Leaves turn.read := by
  obtain ⟨entries, hentries, hfirst⟩ := exists_firstEntries turn.bytes
  have hrecords : entriesOf (emitted (firstSet turn.bytes)) = entries := by
    rw [hfirst, entriesOf_append, entriesOf_records]
    split <;> exact List.append_nil entries
  have hlimit : (turn.stream.handsOut turn.disk).length < lineLimit turn.disk turn.stream := by
    have hle := Stream.length_handsOut_le turn.disk turn.stream
    unfold lineLimit
    omega
  obtain ⟨⟨after, hstores, htable, hdisk⟩, hanswer, hleft, horigin⟩ :=
    @readsLines (lineLimit turn.disk turn.stream) none ⟨turn.table, turn.disk, ⟨0, false⟩⟩
      turn.stream entries htakes rfl hlimit hentries
  have hread : turn.read.table = after.table := htable
  rw [hrecords]
  refine ⟨⟨?_, ?_⟩, ⟨hread ▸ hstores.takes, hleft, horigin⟩⟩
  · rw [← Nat.zero_add entries.length]
    exact hanswer
  · intro key
    rw [hread, hstores.contents]
    exact Contents.lookup_foldl_stores _ entries key

/-! ## Set after set -/

/-- What is at hand when a set has been read: the stream is where the set has left it, and
table and disk are those that the caller goes on with. -/
def following (loaded : Loaded) (chosen : Table × Disk) : Turn :=
  ⟨chosen.1, chosen.2, loaded.rest⟩

/-- If the caller leaves the file alone that the stream reads from, what was left of the
stream is at hand. -/
theorem following_spec {origin? : Option Nat} {left : Bytes} {loaded : Loaded}
    {chosen : Table × Disk} (hleft : loaded.rest.handsOut loaded.disk = left)
    (horigin : loaded.rest.origin? = origin?)
    (halike : Stream.Alike origin? chosen.2 loaded.disk) :
    (following loaded chosen).bytes = left ∧ (following loaded chosen).stream.origin? = origin? := by
  refine ⟨?_, horigin⟩
  rw [← hleft, bytes, following]
  exact Stream.handsOut_congr (horigin.symm ▸ halike)

/-- What is at hand when so many sets have been read, one after the other. -/
def after (between : Nat → Loaded → Table × Disk) (turn : Turn) : Nat → Turn
  | 0 => turn
  | count + 1 =>
    let loaded := (after between turn count).read
    following loaded (between count loaded)

theorem after_succ (between : Nat → Loaded → Table × Disk) (turn : Turn) (count : Nat) :
    turn.after between (count + 1) =
      following (turn.after between count).read
        (between count (turn.after between count).read) := rfl

/-- Does the caller go on with a table that takes records, and leave the file alone that the
stream reads from? -/
def Minds (origin? : Option Nat) (between : Nat → Loaded → Table × Disk) : Prop :=
  ∀ count loaded, loaded.table.Takes origin? →
    (between count loaded).1.Takes origin? ∧
      Stream.Alike origin? (between count loaded).2 loaded.disk

/-- A caller that goes on with the same table. -/
def goingOn (_ : Nat) (loaded : Loaded) : Table × Disk := (loaded.table, loaded.disk)

/-- A caller that takes a fresh table in memory for every set. -/
def startingAfresh (_ : Nat) (loaded : Loaded) : Table × Disk := (.memory .empty, loaded.disk)

theorem minds_goingOn (origin? : Option Nat) : Minds origin? goingOn :=
  fun _ _ htakes => ⟨htakes, .refl _ _⟩

theorem minds_startingAfresh (origin? : Option Nat) : Minds origin? startingAfresh :=
  fun _ _ _ => ⟨Table.takes_empty origin?, .refl _ _⟩

/-- When some of the sets have been read, the others are left to be read. -/
theorem after_spec {turn : Turn} (htakes : turn.table.Takes turn.stream.origin?)
    {between : Nat → Loaded → Table × Disk} (hminds : Minds turn.stream.origin? between)
    {count : Nat} (hcount : count < (setsOf turn.bytes).length) :
    (turn.after between count).table.Takes turn.stream.origin? ∧
      (turn.after between count).stream.origin? = turn.stream.origin? ∧
      setsOf (turn.after between count).bytes = (setsOf turn.bytes).drop count := by
  induction count with
  | zero => exact ⟨htakes, rfl, rfl⟩
  | succ count ih =>
    obtain ⟨hthere, horigin, hsets⟩ := ih (Nat.lt_of_succ_lt hcount)
    have htaken : (turn.after between count).table.Takes
        (turn.after between count).stream.origin? := by
      rw [horigin]
      exact hthere
    obtain ⟨-, hleaves⟩ := read_spec htaken
    rw [after_succ]
    generalize (turn.after between count).read = loaded at hleaves
    have hkept := hleaves.takes
    rw [horigin] at hkept
    obtain ⟨hnext, halike⟩ := hminds count loaded hkept
    obtain ⟨hbytes, hsame⟩ := following_spec hleaves.left (hleaves.origin.trans horigin) halike
    refine ⟨hnext, hsame, ?_⟩
    -- there is one more set, so a terminator has ended this one
    have hdrop : (setsOf turn.bytes).drop (count + 1) =
        if isEnded (turn.after between count).bytes then
          setsOf (laterSets (turn.after between count).bytes) else [] := by
      rw [← List.tail_drop, ← hsets, setsOf_eq (turn.after between count).bytes, List.tail_cons]
    have hmore : (setsOf turn.bytes).drop (count + 1) ≠ [] := by
      simpa [List.drop_eq_nil_iff] using hcount
    rw [hbytes, hdrop]
    rw [hdrop] at hmore
    split at hmore
    · next hended => rw [if_pos hended]
    · exact absurd rfl hmore

/-! ## The whole stream -/

/-- What comes of a stream of which set after set is read. -/
structure SetBySet (between : Nat → Loaded → Table × Disk) (turn : Turn) : Prop where
  /-- One set is read up to and with its terminator, or up to the end of the stream. -/
  consumed : firstSet turn.bytes ++ turn.read.rest.handsOut turn.read.disk = turn.bytes
  /-- Its records are those that a decoder hands on of these bytes. -/
  first : turn.Reads (entriesOf (emitted (firstSet turn.bytes))) (isEnded turn.bytes)
  /-- There is at least one set. -/
  nonempty : setsOf turn.bytes ≠ []
  /-- Reading again and again gives the sets of the whole stream, one by one, and the last of
  them is the first that no terminator ends. -/
  each : ∀ (count : Nat) (h : count < (setsOf turn.bytes).length),
    (turn.after between count).Reads (setsOf turn.bytes)[count]
      (decide (count + 1 < (setsOf turn.bytes).length))
  /-- Where no table is handed over, there is one in the end exactly if the set has a record,
  and it holds the records of the set. -/
  restored : ∃ table?, (restore none turn.disk turn.stream).answer = .ok table? ∧
    (table? = none ↔ entriesOf (emitted (firstSet turn.bytes)) = []) ∧
    ∀ table, table? = some table → ∀ key, table.inMemory.contents.lookup key =
      latest? (entriesOf (emitted (firstSet turn.bytes))) key

/-- The set that comes next is read, and another behind it if there is one. -/
theorem reads_after {turn : Turn} (htakes : turn.table.Takes turn.stream.origin?)
    {between : Nat → Loaded → Table × Disk} (hminds : Minds turn.stream.origin? between)
    {count : Nat} (hcount : count < (setsOf turn.bytes).length) :
    (turn.after between count).Reads (setsOf turn.bytes)[count]
      (decide (count + 1 < (setsOf turn.bytes).length)) := by
  obtain ⟨hthere, horigin, hsets⟩ := after_spec htakes hminds hcount
  obtain ⟨hreads, -⟩ := read_spec (horigin.symm ▸ hthere)
  rw [setsOf_eq, List.drop_eq_getElem_cons hcount, List.cons.injEq] at hsets
  obtain ⟨hentries, hrest⟩ := hsets
  have hended : isEnded (turn.after between count).bytes =
      decide (count + 1 < (setsOf turn.bytes).length) := by
    have hiff : (setsOf turn.bytes).drop (count + 1) = [] ↔
        (setsOf turn.bytes).length ≤ count + 1 := List.drop_eq_nil_iff
    rw [← hrest] at hiff
    rw [Bool.eq_iff_iff, decide_eq_true_iff, ← Nat.not_le, ← hiff]
    split
    · next htrue =>
      rw [setsOf_eq]
      simp [htrue]
    · next hfalse => simp [hfalse]
  rw [← hentries, ← hended]
  exact hreads

/-- With a fresh table for every set, each set is in a table of its own. -/
theorem found_startingAfresh {turn : Turn} (hfresh : turn.table = .memory .empty) {count : Nat}
    (hcount : count < (setsOf turn.bytes).length) (key : Bytes) :
    (turn.after startingAfresh count).read.table.inMemory.contents.lookup key =
      latest? (setsOf turn.bytes)[count] key := by
  have htakes : turn.table.Takes turn.stream.origin? := by
    rw [hfresh]
    exact Table.takes_empty turn.stream.origin?
  have hthere : (turn.after startingAfresh count).table = .memory .empty := by
    cases count with
    | zero => exact hfresh
    | succ count => rfl
  exact (reads_after htakes (minds_startingAfresh _) hcount).found_of_fresh hthere key

/-- Without a table, a fresh one is handed back if a record was read. -/
theorem restore_none_spec (turn : Turn) :
    ∃ table?, (restore none turn.disk turn.stream).answer = .ok table? ∧
      (table? = none ↔ entriesOf (emitted (firstSet turn.bytes)) = []) ∧
      ∀ table, table? = some table → ∀ key, table.inMemory.contents.lookup key =
        latest? (entriesOf (emitted (firstSet turn.bytes))) key := by
  obtain ⟨hreads, -⟩ := @read_spec ⟨.memory .empty, turn.disk, turn.stream⟩
    (Table.takes_empty turn.stream.origin?)
  have hbytes : bytes ⟨.memory .empty, turn.disk, turn.stream⟩ = turn.bytes := rfl
  rw [hbytes] at hreads
  generalize entriesOf (emitted (firstSet turn.bytes)) = entries at hreads ⊢
  have hanswer := hreads.answer
  have hfound := hreads.found_of_fresh rfl
  simp only [read] at hanswer hfound
  rw [restore, Option.getD_none]
  generalize readSet (.memory .empty) turn.disk turn.stream = loaded at hanswer hfound ⊢
  refine ⟨if entries = [] then none else some loaded.table, ?_, ?_, ?_⟩
  · rw [Restored.ofLoaded, hanswer]
    cases entries <;> rfl
  · by_cases hnone : entries = [] <;> simp [hnone]
  · intro table htable
    split at htable
    · cases htable
    · cases htable
      exact hfound

/-- Reading set by set loses nothing, and reads nothing twice. -/
theorem sets_read_one_by_one {turn : Turn} (htakes : turn.table.Takes turn.stream.origin?)
    {between : Nat → Loaded → Table × Disk} (hminds : Minds turn.stream.origin? between) :
    SetBySet between turn where
  consumed := by
    rw [(read_spec htakes).2.left]
    exact firstSet_append_laterSets turn.bytes
  first := (read_spec htakes).1
  nonempty := by
    rw [setsOf_eq]
    exact List.cons_ne_nil _ _
  each := fun _ => reads_after htakes hminds
  restored := restore_none_spec turn

/-- Two sets, of which the first has no header, and the second no terminator. -/
def twoSets : Turn := ⟨.memory .empty, .empty, .withCapacity 3 (Bytes.ofText "x\n@\n@k\nv")⟩

/-- They are read into one table, one by one. -/
theorem twoSets_read_one_by_one :
    twoSets.table.Takes twoSets.stream.origin? ∧ Minds twoSets.stream.origin? goingOn ∧
      setsOf twoSets.bytes = [[⟨[0], [0x78, 0]⟩], [⟨[0x6b, 0], [0x76, 0]⟩]] ∧
      SetBySet goingOn twoSets :=
  ⟨Table.takes_empty _, minds_goingOn _, by decide +kernel,
    sets_read_one_by_one (Table.takes_empty _) (minds_goingOn _)⟩

end Turn

end Dump
end KeyTable
