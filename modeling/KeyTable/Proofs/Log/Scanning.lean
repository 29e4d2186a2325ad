import KeyTable.Proofs.Log.Whole

/-!
# Scanning a log by positions

A log file is not taken apart piece by piece when it is read, but scanned with a
position that moves on from frame to frame.  A scan reads single bytes by their
numbers, which may be out of range, and it goes on for as long as there are intact
frames.  Here every access is checked (`byteAt`, `bytesFrom`, `bytesUpTo`,
`bytesLeft`), and the number of steps is limited.

* `frameAhead_eq` — the frame at the front of what is left is read without a fault,
  and is the one that is decoded from it.
* `scanFrames_eq` — a scan with a step for every frame header that could still follow,
  and one more, comes to its end.
* `scan_eq` — so whatever the bytes are, the scan of them is free of faults, and finds
  what replaying them finds.
-/

namespace KeyTable
namespace Log

/-! ## Checked access -/

/-- What a scan could run into. -/
inductive ScanFault where
  /-- A byte was asked for that is not there. -/
  | outOfRange
  /-- No step is left, but the scan has not come to its end. -/
  | outOfSteps
  deriving Repr, DecidableEq

/-- The byte of this number. -/
def byteAt (bytes : Bytes) (position : Nat) : Except ScanFault UInt8 :=
  match bytes[position]? with
  | some b => .ok b
  | none => .error .outOfRange

/-- The number that so many bytes from a position on write. -/
def numberAt (bytes : Bytes) : Nat → Nat → Except ScanFault Nat
  | 0, _ => .ok 0
  | width + 1, position => do
    let low ← byteAt bytes position
    let high ← numberAt bytes width (position + 1)
    return low.toNat + 256 * high

/-- The bytes from a position on, which may be where they end. -/
def bytesFrom (bytes : Bytes) (position : Nat) : Except ScanFault Bytes :=
  if position ≤ bytes.length then .ok (bytes.drop position) else .error .outOfRange

/-- The bytes up to a position, which may be where they end. -/
def bytesUpTo (bytes : Bytes) (position : Nat) : Except ScanFault Bytes :=
  if position ≤ bytes.length then .ok (bytes.take position) else .error .outOfRange

/-- How many bytes there are from a position on. -/
def bytesLeft (bytes : Bytes) (position : Nat) : Except ScanFault Nat :=
  if position ≤ bytes.length then .ok (bytes.length - position) else .error .outOfRange

/-! ## The scan -/

/-- The change in the frame at the front, and the length of the frame.  A payload that
would reach behind the end is no fault: there is no such frame. -/
def frameAhead (bytes : Bytes) : Except ScanFault (Option (Change × Nat)) :=
  if bytes.length < frameHeaderSize then .ok none
  else do
    let checksum ← numberAt bytes 4 0
    let length ← numberAt bytes 4 4
    if bytes.length < frameHeaderSize + length then
      .ok none
    else
      let payload := (bytes.drop frameHeaderSize).take length
      if (crc32 payload).toNat = checksum then
        .ok ((decodePayload? payload).map fun change => (change, frameHeaderSize + length))
      else .ok none

/-- The changes in the frames from a position on, and the position behind the last
intact one. -/
def scanFrames (bytes : Bytes) : Nat → Nat → Except ScanFault (List Change × Nat)
  | 0, _ => .error .outOfSteps
  | steps + 1, position => do
    match ← frameAhead (← bytesFrom bytes position) with
    | none => return ([], position)
    | some (change, length) =>
      let (changes, stop) ← scanFrames bytes steps (position + length)
      return (change :: changes, stop)

/-- How many steps the scan of a log may take: one for every frame header that has room
in it, and one more. -/
def scanSteps (bytes : Bytes) : Nat := bytes.length / frameHeaderSize + 1

/-- Why a log without the magic bytes is refused. -/
def scanBadMagic (bytes : Bytes) : Except ScanFault Fault := do
  return .corrupt (.badMagic (← bytesUpTo bytes (min bytes.length 4)))

/-- What replaying a log finds, by positions. -/
def scan (bytes : Bytes) : Except ScanFault (Except Fault (List Change × Recovery)) := do
  if bytes.length < headerSize then
    return .error (← scanBadMagic bytes)
  else if (← bytesUpTo bytes 4) ≠ magic then
    return .error (← scanBadMagic bytes)
  else
    let found ← numberAt bytes 2 4
    if found ≠ version then
      return .error (.corrupt (.badVersion found))
    else
      let (changes, stop) ← scanFrames bytes (scanSteps bytes) headerSize
      let discarded ← bytesLeft bytes stop
      return .ok (changes, { applied := changes.length, validLength := stop, discarded })

/-! ## No access is out of range -/

theorem byteAt_of_lt {bytes : Bytes} {position : Nat} (h : position < bytes.length) :
    byteAt bytes position = .ok bytes[position] := by
  rw [byteAt, List.getElem?_eq_getElem h]

/-- A number can be read if all its bytes are there. -/
theorem numberAt_eq {bytes : Bytes} {width position : Nat} (h : position + width ≤ bytes.length) :
    numberAt bytes width position =
      .ok (LittleEndian.decode ((bytes.drop position).take width)) := by
  induction width generalizing position with
  | zero => rfl
  | succ width ih =>
    have hlt : position < bytes.length := by omega
    rw [numberAt, byteAt_of_lt hlt, ih (by omega), List.drop_eq_getElem_cons hlt,
      List.take_succ_cons, LittleEndian.decode]
    rfl

theorem bytesFrom_of_le {bytes : Bytes} {position : Nat} (h : position ≤ bytes.length) :
    bytesFrom bytes position = .ok (bytes.drop position) := if_pos h

theorem bytesUpTo_of_le {bytes : Bytes} {position : Nat} (h : position ≤ bytes.length) :
    bytesUpTo bytes position = .ok (bytes.take position) := if_pos h

theorem bytesLeft_of_le {bytes : Bytes} {position : Nat} (h : position ≤ bytes.length) :
    bytesLeft bytes position = .ok (bytes.length - position) := if_pos h

theorem scanBadMagic_eq (bytes : Bytes) :
    scanBadMagic bytes = .ok (.corrupt (.badMagic (bytes.take 4))) := by
  rw [scanBadMagic, bytesUpTo_of_le (Nat.min_le_left _ _), List.take_eq_take_min (i := 4),
    Nat.min_comm]
  rfl

/-! ## Frames -/

/-- The same frame by positions. -/
theorem frameAhead_header {checksum length rest : Bytes} (hchecksum : checksum.length = 4)
    (hlength : length.length = 4) :
    frameAhead (checksum ++ (length ++ rest)) =
      .ok (if rest.length < LittleEndian.decode length then none
        else if (crc32 (rest.take (LittleEndian.decode length))).toNat =
            LittleEndian.decode checksum then
          (decodePayload? (rest.take (LittleEndian.decode length))).map fun change =>
            (change, frameHeaderSize + LittleEndian.decode length)
        else none) := by
  have hsize : (checksum ++ (length ++ rest)).length = 8 + rest.length := by
    rw [List.length_append, List.length_append, hchecksum, hlength]
    omega
  have hfirst : numberAt (checksum ++ (length ++ rest)) 4 0 =
      .ok (LittleEndian.decode checksum) := by
    rw [numberAt_eq (by omega), List.drop_zero, List.take_left' hchecksum]
  have hsecond : numberAt (checksum ++ (length ++ rest)) 4 4 =
      .ok (LittleEndian.decode length) := by
    rw [numberAt_eq (by omega), List.drop_left' hchecksum, List.take_left' hlength]
  have hbehind : (checksum ++ (length ++ rest)).drop frameHeaderSize = rest := by
    rw [← List.append_assoc]
    refine List.drop_left' ?_
    rw [List.length_append, hchecksum, hlength, frameHeaderSize]
  have hheader : ¬ (checksum ++ (length ++ rest)).length < frameHeaderSize := by
    rw [hsize, frameHeaderSize]
    omega
  rw [frameAhead, if_neg hheader, hfirst, hsecond, hbehind, hsize]
  simp only [bind, Except.bind, frameHeaderSize, Nat.add_lt_add_iff_left]
  split
  · rfl
  · split <;> rfl

theorem exists_header {bytes : Bytes} (h : frameHeaderSize ≤ bytes.length) :
    ∃ checksum length rest : Bytes, checksum.length = 4 ∧ length.length = 4 ∧
      bytes = checksum ++ (length ++ rest) := by
  rw [frameHeaderSize] at h
  refine ⟨bytes.take 4, (bytes.drop 4).take 4, (bytes.drop 4).drop 4, ?_, ?_, ?_⟩
  · rw [List.length_take]
    omega
  · rw [List.length_take, List.length_drop]
    omega
  · rw [List.take_append_drop, List.take_append_drop]

/-- The frame at the front is read without a fault, and is the one that is decoded. -/
theorem frameAhead_eq (bytes : Bytes) :
    frameAhead bytes =
      .ok ((decodeFrame? bytes).map fun (change, rest) => (change, bytes.length - rest.length)) := by
  by_cases hshort : bytes.length < frameHeaderSize
  · rw [frameAhead, if_pos hshort, decodeFrame?_of_lt hshort, Option.map_none]
  · obtain ⟨checksum, length, rest, hchecksum, hlength, rfl⟩ :=
      exists_header (Nat.le_of_not_lt hshort)
    rw [frameAhead_header hchecksum hlength, decodeFrame?_header hchecksum hlength]
    by_cases hroom : rest.length < LittleEndian.decode length
    · -- the payload would reach behind the end
      rw [if_pos hroom, takeExactly?_of_lt hroom]
      rfl
    · have hused : (checksum ++ (length ++ rest)).length -
          (rest.drop (LittleEndian.decode length)).length =
          frameHeaderSize + LittleEndian.decode length := by
        rw [List.length_append, List.length_append, List.length_drop, hchecksum, hlength,
          frameHeaderSize]
        omega
      rw [if_neg hroom, takeExactly?_of_le (Nat.le_of_not_lt hroom), Option.bind_some]
      dsimp only
      split
      · cases decodePayload? (rest.take (LittleEndian.decode length)) with
        | none => rfl
        | some change => simp only [Option.map_some, Option.bind_some, hused]
      · rfl

/-! ## The whole scan -/

/-- A scan that may take enough steps finds what is decoded from the position on. -/
theorem scanFrames_eq {bytes : Bytes} {steps position : Nat} (hposition : position ≤ bytes.length)
    (hsteps : bytes.length < position + frameHeaderSize * steps) :
    scanFrames bytes steps position =
      .ok ((decodeFrames (bytes.drop position)).1,
        bytes.length - (decodeFrames (bytes.drop position)).2.length) := by
  induction steps generalizing position with
  | zero => omega
  | succ steps ih =>
    rw [scanFrames, bytesFrom_of_le hposition]
    simp only [bind, Except.bind, frameAhead_eq]
    cases hdecode : decodeFrame? (bytes.drop position) with
    | none =>
      rw [decodeFrames_of_none hdecode, List.length_drop, Nat.sub_sub_self hposition]
      rfl
    | some found =>
      obtain ⟨change, rest⟩ := found
      have hlength := length_of_decodeFrame? hdecode
      obtain ⟨frame, -, hsplit⟩ := exists_frame_of_decodeFrame? hdecode
      have hdrop := congrArg List.length hsplit
      rw [List.length_drop, List.length_append] at hdrop
      rw [List.length_drop, frameHeaderSize] at hlength
      -- what is left behind the frame is what is left from the next position on
      have hrest : bytes.drop (position + frame.length) = rest := by
        rw [← List.drop_drop, hsplit, List.drop_left]
      have hframe : (bytes.drop position).length - rest.length = frame.length := by
        rw [List.length_drop]
        omega
      have hroom : bytes.length < position + frame.length + frameHeaderSize * steps := by
        rw [frameHeaderSize] at hsteps ⊢
        omega
      have hinside : position + frame.length ≤ bytes.length := by omega
      have hnext := ih hinside hroom
      rw [hrest] at hnext
      rw [decodeFrames_of_some hdecode]
      simp only [Option.map_some, hframe, hnext]
      rfl

/-- Whatever the bytes are, no access is out of range, the scan comes to its end, and it
finds what replaying the bytes finds. -/
theorem scan_eq (bytes : Bytes) : scan bytes = .ok (replay bytes) := by
  by_cases hlength : bytes.length < headerSize
  · rw [scan, if_pos hlength, scanBadMagic_eq, replay, decide_eq_true hlength, Bool.true_or,
      if_pos rfl]
    rfl
  · have hheader : headerSize ≤ bytes.length := Nat.le_of_not_lt hlength
    have hsix : 6 ≤ bytes.length := hheader
    have hsteps : bytes.length < headerSize + frameHeaderSize * scanSteps bytes := by
      rw [headerSize, frameHeaderSize, scanSteps, frameHeaderSize]
      omega
    have hstop := bytesLeft_of_le
      (Nat.sub_le bytes.length (decodeFrames (bytes.drop headerSize)).2.length)
    have hdamaged : (decodeFrames (bytes.drop headerSize)).2.length ≤ bytes.length := by
      obtain ⟨frames, -, hbody, -⟩ := exists_frames (bytes.drop headerSize)
      have hbytes := congrArg List.length hbody
      rw [List.length_drop, List.length_append] at hbytes
      omega
    rw [Nat.sub_sub_self hdamaged] at hstop
    rw [scan, if_neg hlength, bytesUpTo_of_le (by omega), scanBadMagic_eq,
      numberAt_eq (by omega), scanFrames_eq hheader hsteps, replay, decide_eq_false hlength,
      Bool.false_or]
    simp only [bind, Except.bind, hstop, bne_iff_ne]
    split
    · rfl
    · split <;> rfl

end Log
end KeyTable
