import KeyTable.Dump.Decoder
import KeyTable.Stream
import KeyTable.Table.Basic

/-!
# Reading a dump into a table

A stream may hold several sets, each ended by a terminator.  `readSet` reads one
of them into a table: the records of the set overlay what the table holds, and
the stream is left just behind the terminator, or at its end.

A record is stored as soon as it is complete.  If the stream is read from a file
and the table logs to the same file, what is logged is read as well.
-/

namespace KeyTable
namespace Dump

/-- What reading a set comes to. -/
structure Summary where
  /-- Number of records stored. -/
  records : Nat
  /-- Did the set end in a terminator? -/
  endOfSet : Bool
  deriving Repr, DecidableEq

/-- A table that records are being read into. -/
structure Loading where
  /-- The table. -/
  table : Table
  /-- The disk. -/
  disk : Disk
  /-- What has been read so far. -/
  summary : Summary

/-- Takes an item: a record is stored, and the end of the set is noted. -/
def Loading.accept (loading : Loading) : Item → Except Fault Unit × Loading
  | .record entry =>
    let outcome := loading.table.store loading.disk entry.key (.given entry.value)
    let loading := { loading with table := outcome.table, disk := outcome.disk }
    match outcome.answer with
    | .error fault => (.error fault, loading)
    | .ok _ =>
      (.ok (), { loading with summary.records := loading.summary.records + 1 })
  | .endOfSet => (.ok (), { loading with summary.endOfSet := true })

/-- What came of reading a set. -/
structure Loaded where
  /-- What was read, or why reading stopped. -/
  answer : Except Fault Summary
  /-- The table afterwards. -/
  table : Table
  /-- The disk afterwards. -/
  disk : Disk
  /-- The stream, behind what was read. -/
  rest : Stream
  /-- What was worth knowing. -/
  notices : List Notice

/-- Ends the reading of a set, with so much of the stream left. -/
def Loaded.ofFed (fed : Fed Loading Fault) (rest : Stream) : Loaded where
  answer := fed.answer.map fun _ => fed.receiver.summary
  table := fed.receiver.table
  disk := fed.receiver.disk
  rest := rest
  notices := fed.notices

/-- Reads lines up to a terminator, the end of the stream, or a fault; `limit`
lines at most. -/
def readLines : Nat → Decoder → Loading → Stream → Loaded
  | 0, decoder, loading, stream => .ofFed (decoder.finish Loading.accept loading) stream
  | limit + 1, decoder, loading, stream =>
    match stream.readLine? loading.disk with
    | none => .ofFed (decoder.finish Loading.accept loading) stream
    | some (line, rest) =>
      let fed := decoder.feedLine Loading.accept loading line
      match fed.answer with
      | .error _ => .ofFed fed rest
      | .ok () =>
        if fed.receiver.summary.endOfSet then .ofFed fed rest
        else
          let loaded := readLines limit fed.decoder fed.receiver rest
          { loaded with notices := fed.notices ++ loaded.notices }

/-- Reads one set of a stream into a table, of `limit` lines at most. -/
def readSetUpTo (limit : Nat) (table : Table) (disk : Disk) (stream : Stream) : Loaded :=
  readLines limit {} ⟨table, disk, ⟨0, false⟩⟩ stream

/-- More lines than a stream can have, for each of them takes a byte off it.  A
file can become longer while it is being read, if the table logs its changes to
that very file, but it cannot outgrow `Disk.maxFileSize`. -/
def lineLimit (disk : Disk) (stream : Stream) : Nat :=
  (stream.remaining disk).length + Disk.maxFileSize + 1

/-- Reads one set of a stream into a table. -/
def readSet (table : Table) (disk : Disk) (stream : Stream) : Loaded :=
  readSetUpTo (lineLimit disk stream) table disk stream

/-! ## The limit does not matter -/

/-- Of a stream that reads from a byte string, any limit above its length reads
the same. -/
theorem readLines_eq_of_lt (rest : Bytes) (limit more : Nat) (decoder : Decoder)
    (loading : Loading) (stream : Stream) (hsource : stream.source = .bytes rest)
    (hlimit : (stream.remaining loading.disk).length < limit) (hmore : limit ≤ more) :
    readLines limit decoder loading stream = readLines more decoder loading stream := by
  induction limit generalizing rest more decoder loading stream with
  | zero => omega
  | succ limit ih =>
    obtain ⟨more, rfl⟩ : ∃ n, more = n + 1 := ⟨more - 1, by omega⟩
    unfold readLines
    split
    · rfl
    · next line left hread =>
      obtain ⟨others, hleft⟩ := Stream.source_of_readLine? hsource hread
      have hshort := Stream.length_remaining_of_readLine? hread
      have hlength : (left.remaining
          (decoder.feedLine Loading.accept loading line).receiver.disk).length < limit := by
        rw [Stream.remaining_congr hleft _ loading.disk]
        omega
      simp only [ih others more _ _ left hleft hlength (by omega)]

/-- Of a byte string, any limit above its length reads the whole set. -/
theorem readSetUpTo_eq_readSet {rest : Bytes} {limit : Nat} {stream : Stream} (table : Table)
    (disk : Disk) (hsource : stream.source = .bytes rest)
    (hlimit : (stream.remaining disk).length < limit) :
    readSetUpTo limit table disk stream = readSet table disk stream := by
  have hown : (stream.remaining disk).length < lineLimit disk stream := by
    unfold lineLimit
    omega
  unfold readSet readSetUpTo
  generalize lineLimit disk stream = enough at hown
  let loading : Loading := ⟨table, disk, ⟨0, false⟩⟩
  rcases Nat.le_total limit enough with h | h
  · exact readLines_eq_of_lt rest limit enough {} loading stream hsource hlimit h
  · exact (readLines_eq_of_lt rest enough limit {} loading stream hsource hown h).symm

end Dump
end KeyTable
