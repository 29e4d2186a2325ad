import KeyTable.Bytes.Lines
import KeyTable.Disk.Basic

/-!
# Buffered streams

A stream hands out bytes from a source through a buffer, which is filled again
with at most `capacity` bytes whenever it is empty.  A line may therefore reach
over any number of fillings, and `lineBehind` has to put it together.

The source is a byte string or an open file.  A file is read as it is when the
buffer is filled, so what is `remaining` depends on the disk.  On a disk that
stays the same, to read a line takes the line off what is left to be read
(`append_remaining_takeThroughNewline`), whatever the capacity.
-/

namespace KeyTable

/-! ## Sources -/

/-- Where a stream has its bytes from. -/
inductive Source where
  /-- From a byte string, of which this is left. -/
  | bytes (rest : Bytes)
  /-- From the file of this number, from an offset on. -/
  | file (number offset : Nat)
  deriving Repr, DecidableEq

namespace Source

/-- What is left of a source. -/
def remaining (disk : Disk) : Source → Bytes
  | .bytes rest => rest
  | .file number offset => (disk.contents number).drop offset

/-- Takes at most so many bytes off a source. -/
def take (disk : Disk) (count : Nat) : Source → Bytes × Source
  | .bytes rest => (rest.take count, .bytes (rest.drop count))
  | .file number offset =>
    let piece := disk.readAt number offset count
    (piece, .file number (offset + piece.length))

/-- Taking bytes off a source loses none of them. -/
theorem take_append_remaining (disk : Disk) (count : Nat) (source : Source) :
    (source.take disk count).1 ++ (source.take disk count).2.remaining disk =
      source.remaining disk := by
  cases source with
  | bytes rest => exact List.take_append_drop count rest
  | file number offset =>
    simp only [take, remaining, Disk.readAt_eq]
    rw [← List.drop_drop, List.length_take]
    by_cases h : count ≤ ((disk.contents number).drop offset).length
    · rw [Nat.min_eq_left h]
      exact List.take_append_drop count _
    · have hle : ((disk.contents number).drop offset).length ≤ count := by omega
      rw [Nat.min_eq_right hle, List.take_of_length_le hle, List.drop_length, List.append_nil]

end Source

/-! ## Streams -/

/-- Bytes that are read from a source through a buffer. -/
structure Stream where
  /-- Bytes in the buffer. -/
  buffered : Bytes
  /-- Where more bytes come from. -/
  source : Source
  /-- The most bytes that the buffer takes at a time. -/
  capacity : Nat
  deriving Repr, DecidableEq

namespace Stream

/-- The capacity of a buffer where the caller does not choose. -/
def usualCapacity : Nat := 8192

/-- A stream at the beginning of a byte string, with a buffer of a capacity. -/
def withCapacity (capacity : Nat) (bytes : Bytes) : Stream := ⟨[], .bytes bytes, capacity⟩

/-- A stream at the beginning of a byte string, with the usual buffer. -/
def ofBytes (bytes : Bytes) : Stream := withCapacity usualCapacity bytes

/-- A stream at the beginning of a file, with the usual buffer. -/
def ofFile (number : Nat) : Stream := ⟨[], .file number 0, usualCapacity⟩

/-- What is left to be read. -/
def remaining (disk : Disk) (stream : Stream) : Bytes :=
  stream.buffered ++ stream.source.remaining disk

/-- The stream with all its bytes read. -/
def drained (stream : Stream) : Stream := { stream with buffered := [], source := .bytes [] }

/-- Fills the buffer if it is empty. -/
def fill (disk : Disk) (stream : Stream) : Stream :=
  if stream.buffered = [] then
    let (piece, source) := stream.source.take disk stream.capacity
    { stream with buffered := piece, source }
  else stream

@[simp] theorem remaining_fill (disk : Disk) (stream : Stream) :
    (stream.fill disk).remaining disk = stream.remaining disk := by
  unfold fill remaining
  split
  · next h =>
    rw [h, List.nil_append]
    exact Source.take_append_remaining disk stream.capacity stream.source
  · rfl

/-! ## Reading a line -/

/-- Takes the bytes up to the next newline, and the newline; without a newline,
everything there is.  They are put behind `front`, which has its last byte
first. -/
def lineBehind (disk : Disk) (front : Bytes) (stream : Stream) : Bytes × Stream :=
  let filled := stream.fill disk
  if _h : filled.buffered = [] then (front.reverse, filled)
  else
    match Bytes.fromNewline filled.buffered with
    | newline :: rest =>
      (front.reverse ++ (Bytes.upToNewline filled.buffered ++ [newline]),
        { filled with buffered := rest })
    | [] => lineBehind disk (filled.buffered.reverse ++ front) { filled with buffered := [] }
termination_by (stream.remaining disk).length
decreasing_by
  have hpos : 0 < (stream.fill disk).buffered.length := List.length_pos_iff.2 _h
  rw [← remaining_fill disk stream]
  simp only [remaining, List.nil_append, List.length_append]
  show ((stream.fill disk).source.remaining disk).length < _
  omega

/-- Takes the bytes up to the next newline, and the newline. -/
def takeThroughNewline (disk : Disk) (stream : Stream) : Bytes × Stream :=
  stream.lineBehind disk []

theorem append_remaining_lineBehind (disk : Disk) (front : Bytes) (stream : Stream) :
    (stream.lineBehind disk front).1 ++ (stream.lineBehind disk front).2.remaining disk =
      front.reverse ++ stream.remaining disk := by
  fun_induction lineBehind disk front stream with
  | case1 front stream filled h => rw [remaining_fill]
  | case2 front stream filled h newline rest hcut =>
    have hsplit := Bytes.upToNewline_append_fromNewline filled.buffered
    rw [hcut] at hsplit
    rw [← remaining_fill disk stream]
    simp only [remaining, List.append_assoc, List.singleton_append]
    rw [← List.cons_append, ← List.append_assoc (Bytes.upToNewline _), hsplit]
  | case3 front stream filled h hcut ih =>
    rw [ih, ← remaining_fill disk stream]
    simp [remaining, filled]

/-- To read a line takes it off what is left to be read. -/
theorem append_remaining_takeThroughNewline (disk : Disk) (stream : Stream) :
    (stream.takeThroughNewline disk).1 ++ (stream.takeThroughNewline disk).2.remaining disk =
      stream.remaining disk :=
  append_remaining_lineBehind disk [] stream

/-- Takes one line, without its newline, off a stream.  A last line need not end in
a newline; at the end of the source there is none. -/
def readLine? (disk : Disk) (stream : Stream) : Option (Bytes × Stream) :=
  match stream.takeThroughNewline disk with
  | ([], _) => none
  | (b :: line, rest) =>
    let line := b :: line
    some (if line.getLast? = some Ascii.newline then line.dropLast else line, rest)

/-- A line takes at least one byte off a stream. -/
theorem length_remaining_of_readLine? {disk : Disk} {stream rest : Stream} {line : Bytes}
    (h : stream.readLine? disk = some (line, rest)) :
    (rest.remaining disk).length < (stream.remaining disk).length := by
  have happ := append_remaining_takeThroughNewline disk stream
  unfold readLine? at h
  split at h
  · cases h
  · next b line' rest' hcut =>
    cases h
    rw [hcut] at happ
    rw [← happ]
    simp only [List.cons_append, List.length_cons, List.length_append]
    omega

/-! ## Streams that read from a byte string -/

/-- What is left of a byte string does not depend on the disk. -/
theorem remaining_congr {stream : Stream} {bytes : Bytes} (h : stream.source = .bytes bytes)
    (disk other : Disk) : stream.remaining disk = stream.remaining other := by
  unfold remaining
  rw [h]
  rfl

theorem source_fill {stream : Stream} {bytes : Bytes} (h : stream.source = .bytes bytes)
    (disk : Disk) : ∃ rest, (stream.fill disk).source = .bytes rest := by
  unfold fill
  split
  · exact ⟨bytes.drop stream.capacity, by rw [h]; rfl⟩
  · exact ⟨bytes, h⟩

theorem source_lineBehind (disk : Disk) (front : Bytes) (stream : Stream) (bytes : Bytes)
    (h : stream.source = .bytes bytes) :
    ∃ rest, (stream.lineBehind disk front).2.source = .bytes rest := by
  fun_induction lineBehind disk front stream generalizing bytes with
  | case1 => exact source_fill h disk
  | case2 => exact source_fill h disk
  | case3 front stream filled _ _ ih =>
    obtain ⟨rest, hrest⟩ := source_fill h disk
    exact ih rest hrest

/-- After a line, a byte string is still a byte string. -/
theorem source_of_readLine? {disk : Disk} {stream rest : Stream} {line bytes : Bytes}
    (hsource : stream.source = .bytes bytes) (h : stream.readLine? disk = some (line, rest)) :
    ∃ left, rest.source = .bytes left := by
  obtain ⟨left, hleft⟩ := source_lineBehind disk [] stream bytes hsource
  unfold readLine? at h
  split at h
  · cases h
  · next hcut =>
    cases h
    refine ⟨left, ?_⟩
    rw [takeThroughNewline] at hcut
    rw [hcut] at hleft
    exact hleft

end Stream

end KeyTable
