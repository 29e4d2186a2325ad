import KeyTable.Proofs.Bytes.Lines
import KeyTable.Stream

/-!
# Reading lines off a stream

A stream that is read line by line hands out the lines of what is left to be
read, however small the pieces in which its buffer is filled.  Only a buffer that
takes nothing at all comes to an end early; what a stream `handsOut` is said for
every buffer.

* `lineBehind_spec` — what is taken is everything up to and with the first newline.
* `readLine?_of_cons`, `readLine?_of_nil` — so a line is read as it is, and leaves
  what is behind it, and at the end there is no line.
* `handsOut_congr` — what is handed out depends on the disk only by the file that the
  stream reads from.
-/

namespace KeyTable

/-- What is taken off a source is the beginning of what is left of it. -/
theorem Source.take_fst (source : Source) (disk : Disk) (count : Nat) :
    (source.take disk count).1 = (source.remaining disk).take count := by
  cases source with
  | bytes rest => rfl
  | file number offset => exact Disk.readAt_eq disk number offset count

namespace Stream

variable {disk : Disk} {stream : Stream}

@[simp] theorem remaining_withCapacity (disk : Disk) (capacity : Nat) (bytes : Bytes) :
    (withCapacity capacity bytes).remaining disk = bytes := rfl

@[simp] theorem capacity_fill (disk : Disk) (stream : Stream) :
    (stream.fill disk).capacity = stream.capacity := by
  unfold fill
  split <;> rfl

/-! ## Where a stream reads from -/

/-- The file that a stream reads from, if it is a file. -/
def origin? (stream : Stream) : Option Nat :=
  match stream.source with
  | .bytes _ => none
  | .file number _ => some number

@[simp] theorem origin?_fill (disk : Disk) (stream : Stream) :
    (stream.fill disk).origin? = stream.origin? := by
  unfold fill
  split
  · obtain ⟨buffered, source, capacity⟩ := stream
    cases source <;> rfl
  · rfl

theorem origin?_lineBehind (disk : Disk) (front : Bytes) (stream : Stream) :
    (stream.lineBehind disk front).2.origin? = stream.origin? := by
  fun_induction lineBehind disk front stream with
  | case1 => exact origin?_fill disk _
  | case2 => exact origin?_fill disk _
  | case3 front stream filled _ _ ih => exact ih.trans (origin?_fill disk stream)

/-- Do two disks have the same in the file that a stream reads from, if it is a file? -/
def Alike (origin? : Option Nat) (disk other : Disk) : Prop :=
  ∀ number, origin? = some number → disk.contents number = other.contents number

theorem Alike.refl (origin? : Option Nat) (disk : Disk) : Alike origin? disk disk :=
  fun _ _ => rfl

theorem Alike.trans {origin? : Option Nat} {disk other third : Disk}
    (h : Alike origin? disk other) (hmore : Alike origin? other third) :
    Alike origin? disk third :=
  fun number hnumber => (h number hnumber).trans (hmore number hnumber)

/-! ## What is handed out -/

/-- What a stream hands out until it comes to an end: what is left to be read, or no more
than is in the buffer if the buffer takes nothing. -/
def handsOut (disk : Disk) (stream : Stream) : Bytes :=
  if stream.capacity = 0 then stream.buffered else stream.remaining disk

theorem handsOut_of_pos (hcapacity : 0 < stream.capacity) :
    stream.handsOut disk = stream.remaining disk := if_neg (Nat.ne_of_gt hcapacity)

theorem length_handsOut_le (disk : Disk) (stream : Stream) :
    (stream.handsOut disk).length ≤ (stream.remaining disk).length := by
  unfold handsOut
  split
  · rw [remaining, List.length_append]
    exact Nat.le_add_right _ _
  · exact Nat.le_refl _

theorem handsOut_congr {other : Disk} (h : Alike stream.origin? disk other) :
    stream.handsOut disk = stream.handsOut other := by
  obtain ⟨buffered, source, capacity⟩ := stream
  unfold handsOut remaining
  cases source with
  | bytes rest => rfl
  | file number offset => simp only [Source.remaining, h number rfl]

@[simp] theorem handsOut_fill (disk : Disk) (stream : Stream) :
    (stream.fill disk).handsOut disk = stream.handsOut disk := by
  unfold handsOut
  rw [capacity_fill, remaining_fill]
  split
  · next hzero =>
    unfold fill
    split
    · next hempty =>
      show (stream.source.take disk stream.capacity).1 = stream.buffered
      rw [hempty, Source.take_fst, hzero, List.take_zero]
    · rfl
  · rfl

/-- If filling the buffer does not help, nothing is handed out any more. -/
theorem handsOut_eq_nil_of_fill (h : (stream.fill disk).buffered = []) :
    stream.handsOut disk = [] := by
  by_cases hzero : stream.capacity = 0
  · rw [← handsOut_fill, handsOut, capacity_fill, if_pos hzero, h]
  · rw [handsOut, if_neg hzero]
    unfold fill at h
    split at h
    · next hempty =>
      change (stream.source.take disk stream.capacity).1 = [] at h
      rw [Source.take_fst, List.take_eq_nil_iff] at h
      rw [remaining, hempty, h.resolve_left hzero, List.append_nil]
    · next hfull => exact absurd h hfull

/-- What is in the buffer is handed out first. -/
theorem handsOut_eq_append (disk : Disk) (stream : Stream) :
    stream.handsOut disk = stream.buffered ++ handsOut disk { stream with buffered := [] } := by
  unfold handsOut
  split
  · exact (List.append_nil _).symm
  · rfl

/-- What is taken is everything up to the first newline, and the newline. -/
theorem lineBehind_spec (disk : Disk) (front : Bytes) (stream : Stream) :
    (stream.lineBehind disk front).1 = front.reverse ++
        ((stream.handsOut disk).upToNewline ++ (stream.handsOut disk).fromNewline.take 1) ∧
      (stream.lineBehind disk front).2.handsOut disk =
        (stream.handsOut disk).fromNewline.drop 1 ∧
      (stream.lineBehind disk front).2.capacity = stream.capacity := by
  fun_induction lineBehind disk front stream with
  | case1 front stream filled h =>
    have hnil := handsOut_eq_nil_of_fill h
    rw [handsOut_fill, hnil]
    exact ⟨by simp [Bytes.upToNewline, Bytes.fromNewline], rfl, capacity_fill disk stream⟩
  | case2 front stream filled h newline rest hcut =>
    -- the buffer holds a newline, so it holds all that is taken
    have hnewline := Bytes.eq_newline_of_fromNewline_eq_cons hcut
    have hsplit := Bytes.upToNewline_append_fromNewline filled.buffered
    rw [hcut, hnewline] at hsplit
    have hhands : stream.handsOut disk = filled.buffered.upToNewline ++
        Ascii.newline :: handsOut disk { filled with buffered := rest } := by
      rw [← handsOut_fill disk stream, handsOut_eq_append,
        handsOut_eq_append disk { filled with buffered := rest }]
      show filled.buffered ++ _ = _
      conv_lhs => rw [← hsplit]
      rw [List.append_assoc, List.cons_append]
    have hno := Bytes.newline_notMem_upToNewline filled.buffered
    rw [hhands, Bytes.upToNewline_append_cons hno, Bytes.fromNewline_append_cons hno, hnewline]
    exact ⟨rfl, rfl, capacity_fill disk stream⟩
  | case3 front stream filled h hcut ih =>
    have hno := Bytes.newline_notMem_of_fromNewline_eq_nil hcut
    have hhands : stream.handsOut disk =
        filled.buffered ++ handsOut disk { filled with buffered := [] } := by
      rw [← handsOut_fill disk stream, handsOut_eq_append]
    obtain ⟨htaken, hleft, hkept⟩ := ih
    rw [hhands, Bytes.upToNewline_append hno, Bytes.fromNewline_append hno]
    refine ⟨?_, hleft, hkept.trans (capacity_fill disk stream)⟩
    rw [htaken, List.reverse_append, List.reverse_reverse, List.append_assoc, List.append_assoc]

/-! ## Lines -/

/-- At the end there is no line. -/
theorem readLine?_of_handsOut_eq_nil (h : stream.handsOut disk = []) :
    stream.readLine? disk = none := by
  obtain ⟨htaken, -, -⟩ := lineBehind_spec disk [] stream
  rw [h] at htaken
  have hcut : stream.takeThroughNewline disk = ([], (stream.lineBehind disk []).2) :=
    Prod.ext htaken rfl
  unfold readLine?
  rw [hcut]

/-- Before the end, the line is read that is handed out first, and what is behind it is left. -/
theorem readLine?_of_handsOut_ne_nil (h : stream.handsOut disk ≠ []) :
    ∃ behind, stream.readLine? disk = some ((stream.handsOut disk).upToNewline, behind) ∧
      behind.handsOut disk = (stream.handsOut disk).fromNewline.drop 1 ∧
      behind.capacity = stream.capacity ∧ behind.origin? = stream.origin? := by
  obtain ⟨htaken, hleft, hkept⟩ := lineBehind_spec disk [] stream
  refine ⟨(stream.lineBehind disk []).2, ?_, hleft, hkept, origin?_lineBehind disk [] stream⟩
  have hno := Bytes.newline_notMem_upToNewline (stream.handsOut disk)
  have hcut : stream.takeThroughNewline disk = ((stream.handsOut disk).upToNewline ++
      (stream.handsOut disk).fromNewline.take 1, (stream.lineBehind disk []).2) :=
    Prod.ext htaken rfl
  have hsplit := Bytes.upToNewline_append_fromNewline (stream.handsOut disk)
  unfold readLine?
  rw [hcut]
  cases hfrom : (stream.handsOut disk).fromNewline with
  | nil =>
    rw [hfrom, List.append_nil] at hsplit
    rw [hsplit] at hno
    rw [hsplit, List.take_nil, List.append_nil]
    obtain ⟨b, line, hline⟩ := List.exists_cons_of_ne_nil h
    rw [hline] at hno ⊢
    simp only
    rw [if_neg fun hlast => hno (List.mem_of_getLast? hlast)]
  | cons newline rest =>
    rw [Bytes.eq_newline_of_fromNewline_eq_cons hfrom, List.take_succ_cons, List.take_zero]
    cases hline : (stream.handsOut disk).upToNewline with
    | nil => rfl
    | cons b line =>
      rw [List.cons_append]
      simp only
      rw [← List.cons_append, List.getLast?_concat, if_pos rfl, List.dropLast_concat]

/-- A line is read as it is, and leaves what is behind it. -/
theorem readLine?_of_cons (hcapacity : 0 < stream.capacity) {line rest : Bytes}
    (hline : Ascii.newline ∉ line)
    (hremaining : stream.remaining disk = line ++ Ascii.newline :: rest) :
    ∃ behind, stream.readLine? disk = some (line, behind) ∧ behind.remaining disk = rest ∧
      behind.capacity = stream.capacity := by
  have hhands := (handsOut_of_pos hcapacity).trans hremaining
  have hne : stream.handsOut disk ≠ [] := by
    rw [hhands]
    exact List.append_ne_nil_of_right_ne_nil _ (List.cons_ne_nil _ _)
  obtain ⟨behind, hread, hleft, hkept, -⟩ := readLine?_of_handsOut_ne_nil hne
  rw [hhands, Bytes.upToNewline_append_cons hline] at hread
  rw [hhands, Bytes.fromNewline_append_cons hline] at hleft
  rw [handsOut_of_pos (hkept ▸ hcapacity)] at hleft
  exact ⟨behind, hread, hleft, hkept⟩

/-- At the end there is no line. -/
theorem readLine?_of_nil (hcapacity : 0 < stream.capacity)
    (hremaining : stream.remaining disk = []) : stream.readLine? disk = none :=
  readLine?_of_handsOut_eq_nil ((handsOut_of_pos hcapacity).trans hremaining)

end Stream
end KeyTable
