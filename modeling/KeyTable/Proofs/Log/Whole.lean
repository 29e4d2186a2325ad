import KeyTable.Log.Replay
import KeyTable.Proofs.Log.Frames

/-!
# Logs as lists of frames

A log is a header and frames behind it.  This file says what replaying it finds,
for a log that is whole and for one that was cut short anywhere.

* `decodeFrames_joined_append` — intact frames are decoded one by one, and then
  what stands behind them.
* `exists_frames` — whatever the bytes are, what is decoded from them are intact
  frames that they open with.
* `decodeFrames_take_joined` — of frames that were cut short, those are decoded that
  lie wholly in front of the cut, and no other (`wholeWithin`).
* `replay_header_append`, `exists_body_of_replay` — a log can be replayed exactly if
  it opens with the header.
* `replay_ofFrames`, `replay_take_ofFrames` — what is read back from a whole log, and
  from one that was cut short.
-/

namespace KeyTable
namespace Log

/-- A frame: its bytes, and the change in it. -/
structure Frame where
  /-- The bytes of the frame. -/
  bytes : Bytes
  /-- The change that was logged. -/
  change : Change
  deriving DecidableEq

namespace Frame

/-- Is the change decoded from the bytes, with none of them left over? -/
def Intact (frame : Frame) : Prop := decodeFrame? frame.bytes = some (frame.change, [])

/-- The frame that a change is written in. -/
def ofChange (change : Change) : Frame := ⟨encodeFrame change, change⟩

theorem map_change_ofChange (changes : List Change) :
    (changes.map ofChange).map Frame.change = changes := by
  rw [List.map_map]
  exact List.map_id _

theorem intact_ofChange {change : Change} (h : (payload change).length < 2 ^ 32) :
    (ofChange change).Intact :=
  decodeFrame?_encodeFrame h

/-- To write the change of an intact frame takes no more bytes than the frame has. -/
theorem Intact.length_encodeFrame_le {frame : Frame} (h : frame.Intact) :
    (encodeFrame frame.change).length ≤ frame.bytes.length := by
  obtain ⟨checksum, length, payload, hchecksum, hlength, -, -, hchange, hbytes⟩ :=
    decodeFrame?_eq_some_iff.mp h
  have hle := length_payload_le hchange
  rw [hbytes]
  simp only [encodeFrame, frameOf, List.length_append, LittleEndian.length_encode, List.length_nil]
  omega

theorem Intact.length_pos {frame : Frame} (h : frame.Intact) : 0 < frame.bytes.length := by
  have hlength := length_of_decodeFrame? h
  simp only [frameHeaderSize] at hlength
  omega

end Frame

/-! ## Frames in a row -/

/-- The bytes of frames, one behind the other. -/
def joined (frames : List Frame) : Bytes := frames.flatMap Frame.bytes

@[simp] theorem joined_nil : joined [] = [] := rfl

theorem joined_cons (frame : Frame) (frames : List Frame) :
    joined (frame :: frames) = frame.bytes ++ joined frames := List.flatMap_cons

theorem joined_singleton (frame : Frame) : joined [frame] = frame.bytes := List.append_nil _

theorem joined_append (frames others : List Frame) :
    joined (frames ++ others) = joined frames ++ joined others := List.flatMap_append

theorem decodeFrames_of_none {bytes : Bytes} (h : decodeFrame? bytes = none) :
    decodeFrames bytes = ([], bytes) := by
  rw [decodeFrames]
  split
  · rfl
  · next hsome =>
    rw [h] at hsome
    cases hsome

theorem decodeFrames_of_some {bytes rest : Bytes} {change : Change}
    (h : decodeFrame? bytes = some (change, rest)) :
    decodeFrames bytes = (change :: (decodeFrames rest).1, (decodeFrames rest).2) := by
  rw [decodeFrames]
  split
  · next hnone =>
    rw [h] at hnone
    cases hnone
  · next other left hsome =>
    rw [h] at hsome
    cases hsome
    rfl

theorem decodeFrames_nil : decodeFrames [] = ([], []) := decodeFrames_of_none rfl

/-- Intact frames are decoded one by one, and then what stands behind them. -/
theorem decodeFrames_joined_append {frames : List Frame} (h : ∀ frame ∈ frames, frame.Intact)
    (rest : Bytes) :
    decodeFrames (joined frames ++ rest) =
      (frames.map Frame.change ++ (decodeFrames rest).1, (decodeFrames rest).2) := by
  induction frames with
  | nil => rfl
  | cons frame frames ih =>
    have hfirst := decodeFrame?_append (h frame List.mem_cons_self) (joined frames ++ rest)
    rw [joined_cons, List.append_assoc, decodeFrames_of_some hfirst, List.nil_append,
      ih fun other hother => h other (List.mem_cons_of_mem _ hother), List.map_cons]
    rfl

theorem decodeFrames_joined {frames : List Frame} (h : ∀ frame ∈ frames, frame.Intact) :
    decodeFrames (joined frames) = (frames.map Frame.change, []) := by
  have hdecode := decodeFrames_joined_append h []
  rw [List.append_nil, decodeFrames_nil, List.append_nil] at hdecode
  exact hdecode

/-- What is decoded from bytes are intact frames that the bytes open with. -/
theorem exists_frames (bytes : Bytes) :
    ∃ frames : List Frame, (∀ frame ∈ frames, frame.Intact) ∧
      bytes = joined frames ++ (decodeFrames bytes).2 ∧
      (decodeFrames bytes).1 = frames.map Frame.change := by
  fun_induction decodeFrames bytes with
  | case1 bytes h => exact ⟨[], fun frame hframe => absurd hframe List.not_mem_nil, rfl, rfl⟩
  | case2 bytes change rest h changes damaged hrest ih =>
    rw [hrest] at ih
    obtain ⟨frames, hintact, hrest, hchanges⟩ := ih
    obtain ⟨frame, hframe, rfl⟩ := exists_frame_of_decodeFrame? h
    refine ⟨⟨frame, change⟩ :: frames, ?_, ?_, ?_⟩
    · intro other hother
      rcases List.mem_cons.mp hother with rfl | hlater
      · exact hframe
      · exact hintact other hlater
    · rw [joined_cons, List.append_assoc]
      exact congrArg (frame ++ ·) hrest
    · exact congrArg (change :: ·) hchanges

/-- What stands behind the frames that are decoded does not begin with a frame. -/
theorem decodeFrame?_decodeFrames (bytes : Bytes) :
    decodeFrame? (decodeFrames bytes).2 = none := by
  fun_induction decodeFrames bytes with
  | case1 bytes h => exact h
  | case2 bytes change rest h changes damaged hrest ih =>
    rw [hrest] at ih
    exact ih

/-! ## Frames that were cut short -/

/-- The frames that lie wholly within the first so many bytes. -/
def wholeWithin : Nat → List Frame → List Frame
  | _, [] => []
  | room, frame :: frames =>
    if frame.bytes.length ≤ room then frame :: wholeWithin (room - frame.bytes.length) frames
    else []

/-- With room for all of the first frames, these lie within it. -/
theorem wholeWithin_append {frames : List Frame} {room : Nat} (h : (joined frames).length ≤ room)
    (others : List Frame) :
    wholeWithin room (frames ++ others) =
      frames ++ wholeWithin (room - (joined frames).length) others := by
  induction frames generalizing room with
  | nil => rfl
  | cons frame frames ih =>
    rw [joined_cons, List.length_append] at h
    have hfirst : frame.bytes.length ≤ room := by omega
    rw [List.cons_append, wholeWithin, if_pos hfirst, ih (by omega), joined_cons,
      List.length_append, Nat.sub_sub, List.cons_append]

theorem wholeWithin_of_le {frames : List Frame} {room : Nat} (h : (joined frames).length ≤ room) :
    wholeWithin room frames = frames := by
  have hall := wholeWithin_append h []
  rw [List.append_nil, wholeWithin, List.append_nil] at hall
  exact hall

theorem wholeWithin_zero {frames : List Frame} (h : ∀ frame ∈ frames, frame.Intact) :
    wholeWithin 0 frames = [] := by
  cases frames with
  | nil => rfl
  | cons frame frames =>
    have hpos := (h frame List.mem_cons_self).length_pos
    exact if_neg (by omega)

/-- In more room, and with more frames behind them, there are no fewer. -/
theorem length_wholeWithin_le {room wider : Nat} (h : room ≤ wider) (frames others : List Frame) :
    (wholeWithin room frames).length ≤ (wholeWithin wider (frames ++ others)).length := by
  induction frames generalizing room wider with
  | nil => exact Nat.zero_le _
  | cons frame frames ih =>
    rw [List.cons_append, wholeWithin, wholeWithin]
    by_cases hroom : frame.bytes.length ≤ room
    · rw [if_pos hroom, if_pos (Nat.le_trans hroom h), List.length_cons, List.length_cons]
      exact Nat.succ_le_succ (ih (Nat.sub_le_sub_right h _))
    · rw [if_neg hroom]
      exact Nat.zero_le _

/-- Of frames that were cut short, those are decoded that lie wholly in front of the
cut. -/
theorem decodeFrames_take_joined {frames : List Frame} (h : ∀ frame ∈ frames, frame.Intact)
    (cut : Nat) :
    (decodeFrames ((joined frames).take cut)).1 =
      (wholeWithin cut frames).map Frame.change := by
  induction frames generalizing cut with
  | nil =>
    rw [joined_nil, List.take_nil, decodeFrames_nil]
    rfl
  | cons frame frames ih =>
    have hframe := h frame List.mem_cons_self
    rw [joined_cons, List.take_append]
    by_cases hle : frame.bytes.length ≤ cut
    · have hfirst := decodeFrame?_append hframe ((joined frames).take (cut - frame.bytes.length))
      rw [List.take_of_length_le hle, decodeFrames_of_some hfirst, List.nil_append, wholeWithin,
        if_pos hle, List.map_cons, ih fun other hother => h other (List.mem_cons_of_mem _ hother)]
    · have hlt : cut < frame.bytes.length := Nat.lt_of_not_le hle
      have hnone := decodeFrame?_take_eq_none hframe hlt
      rw [Nat.sub_eq_zero_of_le (Nat.le_of_lt hlt), List.take_zero, List.append_nil,
        decodeFrames_of_none hnone, wholeWithin, if_neg hle, List.map_nil]

/-! ## The header -/

theorem length_header : header.length = headerSize := by decide

/-- A log that opens with the header can be replayed. -/
theorem replay_header_append (body : Bytes) :
    replay (header ++ body) =
      .ok ((decodeFrames body).1,
        { applied := (decodeFrames body).1.length
          validLength := (header ++ body).length - (decodeFrames body).2.length
          discarded := (decodeFrames body).2.length }) := by
  have hlength : ¬ (header ++ body).length < headerSize := by
    rw [List.length_append, length_header]
    omega
  have hmagic : (header ++ body).take 4 = magic := rfl
  have hversion : LittleEndian.decode (((header ++ body).drop 4).take 2) = version := by
    show LittleEndian.decode [1, 0] = 1
    decide
  have hbody : (header ++ body).drop headerSize = body := List.drop_left' length_header
  rw [replay, decide_eq_false hlength, hmagic]
  simp only [bne_self_eq_false, Bool.or_self, Bool.false_eq_true, if_false, hversion, ne_eq,
    not_true_eq_false, hbody]

/-- The log of frames. -/
def ofFrames (frames : List Frame) : Bytes := header ++ joined frames

theorem ofFrames_append (frames others : List Frame) :
    ofFrames (frames ++ others) = ofFrames frames ++ joined others := by
  rw [ofFrames, joined_append, ← List.append_assoc, ofFrames]

/-- A whole log is replayed to all its changes, and nothing is discarded. -/
theorem replay_ofFrames {frames : List Frame} (h : ∀ frame ∈ frames, frame.Intact) :
    replay (ofFrames frames) =
      .ok (frames.map Frame.change,
        { applied := frames.length
          validLength := (ofFrames frames).length
          discarded := 0 }) := by
  rw [ofFrames, replay_header_append, decodeFrames_joined h]
  simp

/-- A log that was cut short behind its header is replayed to the changes in the
frames that lie wholly in front of the cut. -/
theorem replay_take_ofFrames {frames : List Frame} (h : ∀ frame ∈ frames, frame.Intact)
    {cut : Nat} (hcut : headerSize ≤ cut) :
    ∃ recovery, replay ((ofFrames frames).take cut) =
        .ok ((wholeWithin (cut - headerSize) frames).map Frame.change, recovery) ∧
      recovery.applied = (wholeWithin (cut - headerSize) frames).length := by
  have htake : (ofFrames frames).take cut = header ++ (joined frames).take (cut - headerSize) := by
    rw [ofFrames, List.take_append, length_header, List.take_of_length_le]
    rw [length_header]
    exact hcut
  rw [htake, replay_header_append, decodeFrames_take_joined h]
  exact ⟨_, rfl, List.length_map _⟩

/-- Only a log that opens with the header can be replayed. -/
theorem exists_body_of_replay {bytes : Bytes} {found : List Change × Recovery}
    (h : replay bytes = .ok found) : ∃ body, bytes = header ++ body := by
  refine ⟨bytes.drop headerSize, ?_⟩
  unfold replay at h
  split at h
  · cases h
  · next hopens =>
    simp only [Bool.or_eq_true, decide_eq_true_eq, bne_iff_ne, ne_eq, not_or,
      Decidable.not_not] at hopens
    obtain ⟨hlength, hmagic⟩ := hopens
    by_cases hversion : LittleEndian.decode ((bytes.drop 4).take 2) = version
    · have hdecode : LittleEndian.decode ((bytes.drop 4).take 2) =
          LittleEndian.decode (LittleEndian.encode 2 version) := by
        rw [hversion]
        decide
      have htwo : ((bytes.drop 4).take 2).length = (LittleEndian.encode 2 version).length := by
        rw [List.length_take, List.length_drop, LittleEndian.length_encode]
        simp only [headerSize] at hlength
        omega
      have hparts : bytes.take headerSize = bytes.take 4 ++ (bytes.drop 4).take 2 := by
        rw [show headerSize = 4 + 2 from rfl, List.take_add]
      rw [hmagic, LittleEndian.eq_of_decode_eq htwo hdecode] at hparts
      rw [header, ← hparts, List.take_append_drop]
    · simp only [ne_eq, hversion, not_false_eq_true, if_true] at h
      cases h

/-! ## Frames that a file lacks -/

/-- How many frames of a log do not lie wholly within its first so many bytes. -/
def lacking (length : Nat) (frames : List Frame) : Nat :=
  frames.length - (wholeWithin (length - headerSize) frames).length

theorem lacking_ofFrames (frames : List Frame) : lacking (ofFrames frames).length frames = 0 := by
  have hroom : (ofFrames frames).length - headerSize = (joined frames).length := by
    rw [ofFrames, List.length_append, length_header, Nat.add_sub_cancel_left]
  rw [lacking, hroom, wholeWithin_of_le (Nat.le_refl _), Nat.sub_self]

/-- When frames are added and the file does not get shorter, it lacks no more than
these in addition. -/
theorem lacking_append_le {length longer : Nat} (h : length ≤ longer) (frames others : List Frame) :
    lacking longer (frames ++ others) ≤ lacking length frames + others.length := by
  have hmono := length_wholeWithin_le (Nat.sub_le_sub_right h headerSize) frames others
  rw [lacking, lacking, List.length_append]
  omega

/-! ## Headers that were cut short -/

theorem isPartialHeader_header_append (body : Bytes) :
    isPartialHeader (header ++ body) = false := by
  have hlength : ¬ (header ++ body).length < headerSize := by
    rw [List.length_append, length_header]
    omega
  rw [isPartialHeader, decide_eq_false hlength, Bool.false_and]

theorem isPartialHeader_take {cut : Nat} (h : cut < headerSize) (body : Bytes) :
    isPartialHeader ((header ++ body).take cut) = true := by
  have htake : (header ++ body).take cut = header.take cut :=
    List.take_append_of_le_length (by rw [length_header]; omega)
  have hlt : (header.take cut).length < headerSize := by
    rw [List.length_take]
    omega
  have hprefix : (header.take cut).isPrefixOf header = true :=
    List.isPrefixOf_iff_prefix.mpr (List.take_prefix cut header)
  rw [htake, isPartialHeader, decide_eq_true hlt, hprefix, Bool.and_self]

end Log
end KeyTable
