import Mathlib.Data.List.TakeWhile
import KeyTable.Proofs.Log.Whole

/-!
# Logs of any changes

A frame has four bytes for the length of its payload, and nothing keeps a longer payload
from being written: the bytes then hold what is left of the length modulo 2^32.  A reader
takes that much of the payload, and the beginning of a payload is never a payload itself.
So such a frame is lost, and with it everything behind it.

* `decodeFrame?_of_not_framable` — a frame with too long a payload is not read back.
* `replay_logOf_append` — a log of changes with short enough payloads is read back, up to
  where something follows that is no frame.
* `replay_logOf` — a change is read back from its frame exactly if the payload is short
  enough, and a log up to the first change that is not.
* `overlong_change_lost` — a log in which two of three changes are lost.
-/

namespace KeyTable

/-- Can the length of the payload be written in a frame? -/
def Change.Framable (change : Change) : Prop := (Log.payload change).length < 2 ^ 32

instance (change : Change) : Decidable change.Framable :=
  inferInstanceAs (Decidable ((Log.payload change).length < 2 ^ 32))

namespace Log

/-! ## Payloads that were cut short -/

theorem takeExactly?_append_right {length : Nat} {bytes taken rest : Bytes}
    (h : takeExactly? length bytes = some (taken, rest)) (more : Bytes) :
    takeExactly? length (bytes ++ more) = some (taken, rest ++ more) := by
  obtain ⟨hlength, rfl⟩ := takeExactly?_eq_some_iff.mp h
  rw [List.append_assoc]
  exact takeExactly?_append hlength (rest ++ more)

theorem takeField?_append {bytes taken rest : Bytes}
    (h : takeField? bytes = some (taken, rest)) (more : Bytes) :
    takeField? (bytes ++ more) = some (taken, rest ++ more) := by
  obtain ⟨length, hlength, htaken, rfl⟩ := takeField?_eq_some_iff.mp h
  refine takeField?_eq_some_iff.mpr ⟨length, hlength, htaken, ?_⟩
  simp only [List.append_assoc]

/-- Bytes behind a payload make no difference to the change that is read from it. -/
theorem decodePayload?_append {bytes : Bytes} {change : Change}
    (h : decodePayload? bytes = some change) (more : Bytes) :
    decodePayload? (bytes ++ more) = some change := by
  simp only [decodePayload?, Option.bind_eq_bind, Option.bind_eq_some_iff, Prod.exists] at h ⊢
  obtain ⟨kind, rest, hkind, h⟩ := h
  refine ⟨kind, rest ++ more, takeExactly?_append_right hkind more, ?_⟩
  split at h
  · simp only [Option.bind_eq_some_iff, Prod.exists] at h ⊢
    obtain ⟨key, others, hkey, value, left, hvalue, hchange⟩ := h
    exact ⟨key, others ++ more, takeField?_append hkey more, value, left ++ more,
      takeField?_append hvalue more, hchange⟩
  · simp only [Option.bind_eq_some_iff, Prod.exists] at h ⊢
    obtain ⟨key, others, hkey, hchange⟩ := h
    exact ⟨key, others ++ more, takeField?_append hkey more, hchange⟩
  · cases h

/-- The beginning of a payload is no payload. -/
theorem decodePayload?_take_eq_none {change : Change} (h : (payload change).length < 2 ^ 64)
    {cut : Nat} (hcut : cut < (payload change).length) :
    decodePayload? ((payload change).take cut) = none := by
  cases hshort : decodePayload? ((payload change).take cut) with
  | none => rfl
  | some other =>
    -- what was read would be read from the whole payload too, and does not fit in the beginning
    have hwhole := decodePayload?_append hshort ((payload change).drop cut)
    rw [List.take_append_drop, decodePayload?_payload h, Option.some_inj] at hwhole
    have hlength := length_payload_le hshort
    rw [← hwhole, List.length_take] at hlength
    omega

/-! ## One frame -/

/-- The header of a frame, and the payload behind it. -/
theorem encodeFrame_append (change : Change) (rest : Bytes) :
    encodeFrame change ++ rest =
      LittleEndian.encode 4 (crc32 (payload change)).toNat ++
        (LittleEndian.encode 4 (payload change).length ++ (payload change ++ rest)) := by
  simp only [encodeFrame, frameOf, List.append_assoc]

theorem length_encodeFrame (change : Change) :
    (encodeFrame change).length = frameHeaderSize + (payload change).length := by
  simp only [encodeFrame, frameOf, List.length_append, LittleEndian.length_encode,
    frameHeaderSize]

/-- A frame whose payload has too many bytes is not read back, whatever follows it. -/
theorem decodeFrame?_of_not_framable {change : Change} (h : ¬ change.Framable)
    (hlength : (payload change).length < 2 ^ 64) (rest : Bytes) :
    decodeFrame? (encodeFrame change ++ rest) = none := by
  have hlong : 2 ^ 32 ≤ (payload change).length := Nat.le_of_not_lt h
  have hcut : (payload change).length % 2 ^ 32 < (payload change).length :=
    Nat.lt_of_lt_of_le (Nat.mod_lt _ (by decide)) hlong
  have hfound : LittleEndian.decode (LittleEndian.encode 4 (payload change).length) =
      (payload change).length % 2 ^ 32 := LittleEndian.decode_encode 4 _
  have htaken : (payload change ++ rest).take ((payload change).length % 2 ^ 32) =
      (payload change).take ((payload change).length % 2 ^ 32) :=
    List.take_append_of_le_length (Nat.le_of_lt hcut)
  have hroom : (payload change).length % 2 ^ 32 ≤ (payload change ++ rest).length := by
    rw [List.length_append]
    omega
  rw [encodeFrame_append, decodeFrame?_header (LittleEndian.length_encode 4 _)
    (LittleEndian.length_encode 4 _), hfound, takeExactly?_of_le hroom, Option.bind_some, htaken]
  dsimp only
  rw [decodePayload?_take_eq_none hlength hcut]
  exact ite_self none

/-! ## Frames in a row -/

/-- The log in which these changes were made one after the other. -/
def logOf (changes : List Change) : Bytes := header ++ changes.flatMap encodeFrame

theorem logOf_append (changes others : List Change) :
    logOf (changes ++ others) = logOf changes ++ others.flatMap encodeFrame := by
  rw [logOf, List.flatMap_append, ← List.append_assoc, logOf]

/-- Behind the frames of changes that can be read back, anything may follow. -/
theorem decodeFrames_flatMap_append {changes : List Change}
    (h : ∀ change ∈ changes, change.Framable) (rest : Bytes) :
    decodeFrames (changes.flatMap encodeFrame ++ rest) =
      (changes ++ (decodeFrames rest).1, (decodeFrames rest).2) := by
  have hintact : ∀ frame ∈ changes.map Frame.ofChange, frame.Intact := by
    intro frame hframe
    obtain ⟨change, hchange, rfl⟩ := List.mem_map.mp hframe
    exact Frame.intact_ofChange (h change hchange)
  have hjoined : joined (changes.map Frame.ofChange) = changes.flatMap encodeFrame := by
    rw [joined, List.flatMap_map]
    rfl
  have hdecode := decodeFrames_joined_append hintact rest
  rw [hjoined, Frame.map_change_ofChange] at hdecode
  exact hdecode

/-- Where a log goes on with something that is no frame, its replay ends. -/
theorem replay_logOf_append {changes : List Change} (h : ∀ change ∈ changes, change.Framable)
    {rest : Bytes} (hrest : decodeFrame? rest = none) :
    replay (logOf changes ++ rest) =
      .ok (changes,
        { applied := changes.length
          validLength := (logOf changes).length
          discarded := rest.length }) := by
  have hframes := decodeFrames_flatMap_append h rest
  rw [decodeFrames_of_none hrest, List.append_nil] at hframes
  rw [logOf, List.append_assoc, replay_header_append, hframes]
  simp only [List.length_append, ← Nat.add_assoc, Nat.add_sub_cancel]

/-- Whatever the changes are, a log of them goes on with something that is no frame behind
those that can be read back. -/
theorem decodeFrame?_flatMap_dropWhile {changes : List Change}
    (h : ∀ change ∈ changes, (payload change).length < 2 ^ 64) :
    decodeFrame? ((changes.dropWhile (·.Framable)).flatMap encodeFrame) = none := by
  cases hrest : changes.dropWhile (·.Framable) with
  | nil => rfl
  | cons change others =>
    have hmem : change ∈ changes :=
      (List.dropWhile_suffix _).subset (hrest ▸ List.mem_cons_self)
    have hlost : ¬ change.Framable := by
      have hhead := List.head_dropWhile_not (p := (·.Framable)) (l := changes) (by simp [hrest])
      simpa [hrest] using hhead
    rw [List.flatMap_cons]
    exact decodeFrame?_of_not_framable hlost (h change hmem) _

/-- A change is read back from its frame, whatever follows, exactly if the length of its
payload can be written.  So a log is replayed up to the first change of which this is not
true, and all the rest is discarded. -/
theorem replay_logOf (changes : List Change) :
    (∀ change rest, decodeFrame? (encodeFrame change ++ rest) = some (change, rest) ↔
        change.Framable) ∧
      ((∀ change ∈ changes, (payload change).length < 2 ^ 64) →
        replay (logOf changes) =
          .ok (changes.takeWhile (·.Framable),
            { applied := (changes.takeWhile (·.Framable)).length
              validLength := (logOf (changes.takeWhile (·.Framable))).length
              discarded := ((changes.dropWhile (·.Framable)).flatMap encodeFrame).length })) := by
  refine ⟨?_, ?_⟩
  · intro change rest
    constructor
    · exact length_payload_lt_of_decodeFrame?
    · exact fun h => decodeFrame?_append (decodeFrame?_encodeFrame h) rest
  · intro h
    have hfront : ∀ change ∈ changes.takeWhile (·.Framable), change.Framable := by
      intro change hchange
      simpa using List.mem_takeWhile_imp hchange
    have hreplay := replay_logOf_append hfront (decodeFrame?_flatMap_dropWhile h)
    rw [← logOf_append, List.takeWhile_append_dropWhile] at hreplay
    exact hreplay

/-- A log of an addition and a removal is read back as a whole. -/
theorem replay_logOf_two :
    let changes : List Change := [.store [0x61, 0x00] [0x31, 0x00], .delete [0x61, 0x00]]
    (∀ change ∈ changes, (payload change).length < 2 ^ 64) ∧
      replay (logOf changes) = .ok (changes, { applied := 2, validLength := 60 }) := by
  intro changes
  have hlengths : ∀ change ∈ changes, (payload change).length < 2 ^ 64 := by decide
  exact ⟨hlengths, ((replay_logOf changes).2 hlengths).trans rfl⟩

/-- A value of 2^32 bytes is written in a frame and not read back, and the change behind it
is lost as well. -/
theorem overlong_change_lost :
    let short (b : UInt8) : Change := .store [0x6b, 0x31, 0x00] [b]
    let long : Change := .store [0x6b, 0x30, 0x00] (List.replicate (2 ^ 32) 0x61)
    (∀ rest, decodeFrame? (encodeFrame long ++ rest) = none) ∧
      replay (logOf [short 0x78, long, short 0x79]) =
        .ok ([short 0x78], { applied := 1, validLength := 38, discarded := 2 ^ 32 + 63 }) := by
  intro short long
  have hlong : (payload long).length = 2 ^ 32 + 23 := by
    rw [length_payload_store, List.length_replicate]
    rfl
  have hlost : ∀ rest, decodeFrame? (encodeFrame long ++ rest) = none := by
    refine decodeFrame?_of_not_framable ?_ ?_
    · rw [Change.Framable, hlong]
      decide
    · rw [hlong]
      decide
  have hshort : ∀ change ∈ [short 0x78], change.Framable := by decide
  have hreplay := replay_logOf_append hshort (hlost (encodeFrame (short 0x79)))
  have hlength : (encodeFrame long ++ encodeFrame (short 0x79)).length = 2 ^ 32 + 63 := by
    rw [List.length_append, length_encodeFrame, hlong]
    rfl
  rw [hlength] at hreplay
  refine ⟨hlost, ?_⟩
  have hlog : logOf [short 0x78, long, short 0x79] =
      logOf [short 0x78] ++ (encodeFrame long ++ encodeFrame (short 0x79)) := by
    rw [show [short 0x78, long, short 0x79] = [short 0x78] ++ [long, short 0x79] from rfl,
      logOf_append, List.flatMap_cons, List.flatMap_singleton]
  rw [hlog]
  exact hreplay

end Log
end KeyTable
