import KeyTable.Log.Frame
import KeyTable.Proofs.Bytes.LittleEndian

/-!
# Frames one by one

What it takes to decode a frame, and what follows from it.

* `decodeFrame?_eq_some_iff` — the bytes that a frame is decoded from.
* `decodeFrame?_append` — bytes behind a frame make no difference to it, so a cut
  frame is no frame at all (`decodeFrame?_take_eq_none`).
* `decodeFrame?_encodeFrame` — a frame that was written is decoded to its change, as
  long as the length of its payload can be written.
* `length_payload_le` — what is decoded from a payload can be written again.
-/

namespace KeyTable
namespace Log

/-! ## Taking bytes off the front -/

/-- So many bytes are taken off exactly if they stand in front. -/
theorem takeExactly?_eq_some_iff {length : Nat} {bytes taken rest : Bytes} :
    takeExactly? length bytes = some (taken, rest) ↔
      taken.length = length ∧ bytes = taken ++ rest := by
  constructor
  · intro h
    have htaken := (length_of_takeExactly? h).1
    simp only [takeExactly?] at h
    split at h
    · cases h
      exact ⟨htaken, (List.take_append_drop length bytes).symm⟩
    · cases h
  · rintro ⟨rfl, rfl⟩
    simp [takeExactly?]

theorem takeExactly?_append {length : Nat} {taken : Bytes} (h : taken.length = length)
    (rest : Bytes) : takeExactly? length (taken ++ rest) = some (taken, rest) :=
  takeExactly?_eq_some_iff.mpr ⟨h, rfl⟩

theorem takeExactly?_of_lt {length : Nat} {bytes : Bytes} (h : bytes.length < length) :
    takeExactly? length bytes = none := by
  refine if_neg ?_
  rw [List.length_take]
  omega

theorem takeExactly?_of_le {length : Nat} {bytes : Bytes} (h : length ≤ bytes.length) :
    takeExactly? length bytes = some (bytes.take length, bytes.drop length) :=
  if_pos (List.length_take_of_le h)

/-! ## Payloads -/

theorem takeField?_eq_some_iff {bytes taken rest : Bytes} :
    takeField? bytes = some (taken, rest) ↔
      ∃ length : Bytes, length.length = 8 ∧ taken.length = LittleEndian.decode length ∧
        bytes = length ++ (taken ++ rest) := by
  simp only [takeField?, Option.bind_eq_bind, Option.bind_eq_some_iff, Prod.exists,
    takeExactly?_eq_some_iff]
  constructor
  · rintro ⟨length, others, ⟨hlength, rfl⟩, htaken, rfl⟩
    exact ⟨length, hlength, htaken, rfl⟩
  · rintro ⟨length, hlength, htaken, rfl⟩
    exact ⟨length, taken ++ rest, ⟨hlength, rfl⟩, htaken, rfl⟩

/-- A byte string is read back from behind its length. -/
theorem takeField?_field {bytes : Bytes} (h : bytes.length < 256 ^ 8) (rest : Bytes) :
    takeField? (field bytes ++ rest) = some (bytes, rest) := by
  refine takeField?_eq_some_iff.mpr ⟨LittleEndian.encode 8 bytes.length, ?_, ?_, ?_⟩
  · exact LittleEndian.length_encode 8 bytes.length
  · rw [LittleEndian.decode_encode, Nat.mod_eq_of_lt h]
  · rw [field, List.append_assoc]

theorem length_field (bytes : Bytes) : (field bytes).length = 8 + bytes.length := by
  rw [field, List.length_append, LittleEndian.length_encode]

theorem length_of_takeField? {bytes taken rest : Bytes}
    (h : takeField? bytes = some (taken, rest)) :
    (field taken).length + rest.length = bytes.length := by
  obtain ⟨length, hlength, -, rfl⟩ := takeField?_eq_some_iff.mp h
  rw [length_field, List.length_append, List.length_append, hlength]
  omega

/-- The number of bytes of a payload. -/
theorem length_payload_store (key value : Bytes) :
    (payload (.store key value)).length = 20 + key.length + value.length := by
  rw [payload, List.length_append, List.length_append, LittleEndian.length_encode, length_field,
    length_field]
  omega

theorem length_payload_delete (key : Bytes) :
    (payload (.delete key)).length = 12 + key.length := by
  rw [payload, List.length_append, LittleEndian.length_encode, length_field]
  omega

/-- A payload that was written is read back, as long as lengths take no more than eight bytes. -/
theorem decodePayload?_payload {change : Change} (h : (payload change).length < 2 ^ 64) :
    decodePayload? (payload change) = some change := by
  cases change with
  | store key value =>
    rw [length_payload_store] at h
    have hkey : key.length < 256 ^ 8 := by omega
    have hvalue : value.length < 256 ^ 8 := by omega
    have hvalueField := takeField?_field hvalue []
    rw [List.append_nil] at hvalueField
    have hkind : takeExactly? 4 (payload (.store key value)) =
        some (LittleEndian.encode 4 0, field key ++ field value) := by
      rw [payload, List.append_assoc]
      exact takeExactly?_append (LittleEndian.length_encode 4 0) _
    have hzero : LittleEndian.decode (LittleEndian.encode 4 0) = 0 := by decide
    simp only [decodePayload?, hkind, Option.bind_eq_bind, Option.bind_some, hzero,
      takeField?_field hkey, hvalueField]
    rfl
  | delete key =>
    rw [length_payload_delete] at h
    have hkey : key.length < 256 ^ 8 := by omega
    have hkeyField := takeField?_field hkey []
    rw [List.append_nil] at hkeyField
    have hkind : takeExactly? 4 (payload (.delete key)) =
        some (LittleEndian.encode 4 1, field key) :=
      takeExactly?_append (LittleEndian.length_encode 4 1) _
    have hone : LittleEndian.decode (LittleEndian.encode 4 1) = 1 := by decide
    simp only [decodePayload?, hkind, Option.bind_eq_bind, Option.bind_some, hone, hkeyField]
    rfl

/-- A change that was read from a payload is written in no more bytes. -/
theorem length_payload_le {bytes : Bytes} {change : Change}
    (h : decodePayload? bytes = some change) : (payload change).length ≤ bytes.length := by
  simp only [decodePayload?, Option.bind_eq_bind, Option.bind_eq_some_iff, Prod.exists] at h
  obtain ⟨kind, rest, hkind, h⟩ := h
  have hbytes := (length_of_takeExactly? hkind).2
  split at h
  · simp only [Option.bind_eq_some_iff, Prod.exists] at h
    obtain ⟨key, others, hkey, value, left, hvalue, hchange⟩ := h
    cases hchange
    have hkeyLength := length_of_takeField? hkey
    have hvalueLength := length_of_takeField? hvalue
    rw [length_field] at hkeyLength hvalueLength
    rw [length_payload_store]
    omega
  · simp only [Option.bind_eq_some_iff, Prod.exists] at h
    obtain ⟨key, others, hkey, hchange⟩ := h
    cases hchange
    have hkeyLength := length_of_takeField? hkey
    rw [length_field] at hkeyLength
    rw [length_payload_delete]
    omega
  · cases h

/-! ## Frames -/

/-- A frame whose header is there is decoded from the payload that the header tells of. -/
theorem decodeFrame?_header {checksum length rest : Bytes} (hchecksum : checksum.length = 4)
    (hlength : length.length = 4) :
    decodeFrame? (checksum ++ (length ++ rest)) =
      (takeExactly? (LittleEndian.decode length) rest).bind fun (payload, behind) =>
        if (crc32 payload).toNat = LittleEndian.decode checksum then
          (decodePayload? payload).bind fun change => some (change, behind)
        else none := by
  rw [decodeFrame?, takeExactly?_append hchecksum]
  simp only [Option.bind_eq_bind, Option.bind_some, takeExactly?_append hlength]
  rfl

/-- The bytes that a frame is decoded from. -/
theorem decodeFrame?_eq_some_iff {bytes rest : Bytes} {change : Change} :
    decodeFrame? bytes = some (change, rest) ↔
      ∃ checksum length payload : Bytes, checksum.length = 4 ∧ length.length = 4 ∧
        payload.length = LittleEndian.decode length ∧
        (crc32 payload).toNat = LittleEndian.decode checksum ∧
        decodePayload? payload = some change ∧
        bytes = checksum ++ (length ++ (payload ++ rest)) := by
  simp only [decodeFrame?, Option.bind_eq_bind, Option.bind_eq_some_iff, Prod.exists,
    takeExactly?_eq_some_iff]
  constructor
  · rintro ⟨checksum, r₁, ⟨hchecksum, rfl⟩, length, r₂, ⟨hlength, rfl⟩, payload, r₃,
      ⟨hpayload, rfl⟩, h⟩
    split at h
    · next hcrc =>
      simp only [Option.bind_eq_some_iff] at h
      obtain ⟨found, hfound, heq⟩ := h
      cases heq
      exact ⟨checksum, length, payload, hchecksum, hlength, hpayload, hcrc, hfound, rfl⟩
    · cases h
  · rintro ⟨checksum, length, payload, hchecksum, hlength, hpayload, hcrc, hchange, rfl⟩
    refine ⟨checksum, _, ⟨hchecksum, rfl⟩, length, _, ⟨hlength, rfl⟩, payload, rest,
      ⟨hpayload, rfl⟩, ?_⟩
    rw [if_pos hcrc, hchange]
    rfl

/-- There is no frame where its header does not fit. -/
theorem decodeFrame?_of_lt {bytes : Bytes} (h : bytes.length < frameHeaderSize) :
    decodeFrame? bytes = none := by
  cases hdecode : decodeFrame? bytes with
  | none => rfl
  | some found =>
    have hlength := length_of_decodeFrame? hdecode
    omega

/-- Bytes behind a frame make no difference to it. -/
theorem decodeFrame?_append {bytes rest : Bytes} {change : Change}
    (h : decodeFrame? bytes = some (change, rest)) (more : Bytes) :
    decodeFrame? (bytes ++ more) = some (change, rest ++ more) := by
  obtain ⟨checksum, length, payload, hchecksum, hlength, hpayload, hcrc, hchange, rfl⟩ :=
    decodeFrame?_eq_some_iff.mp h
  refine decodeFrame?_eq_some_iff.mpr
    ⟨checksum, length, payload, hchecksum, hlength, hpayload, hcrc, hchange, ?_⟩
  simp only [List.append_assoc]

/-- A frame can be cut off what stands behind it. -/
theorem exists_frame_of_decodeFrame? {bytes rest : Bytes} {change : Change}
    (h : decodeFrame? bytes = some (change, rest)) :
    ∃ frame, decodeFrame? frame = some (change, []) ∧ bytes = frame ++ rest := by
  obtain ⟨checksum, length, payload, hchecksum, hlength, hpayload, hcrc, hchange, rfl⟩ :=
    decodeFrame?_eq_some_iff.mp h
  refine ⟨checksum ++ (length ++ (payload ++ [])), decodeFrame?_eq_some_iff.mpr
    ⟨checksum, length, payload, hchecksum, hlength, hpayload, hcrc, hchange, rfl⟩, ?_⟩
  simp only [List.append_assoc, List.nil_append]

/-- A frame that was cut short is no frame at all. -/
theorem decodeFrame?_take_eq_none {frame : Bytes} {change : Change} {cut : Nat}
    (h : decodeFrame? frame = some (change, [])) (hcut : cut < frame.length) :
    decodeFrame? (frame.take cut) = none := by
  cases hshort : decodeFrame? (frame.take cut) with
  | none => rfl
  | some found =>
    -- what was decoded would be decoded from the whole frame too, and leave the rest of it
    obtain ⟨other, rest⟩ := found
    have hwhole := decodeFrame?_append hshort (frame.drop cut)
    rw [List.take_append_drop, h, Option.some_inj, Prod.mk.injEq] at hwhole
    have hlength := congrArg List.length hwhole.2
    rw [List.length_append, List.length_drop, List.length_nil] at hlength
    omega

/-- A frame that was written is decoded to its change. -/
theorem decodeFrame?_encodeFrame {change : Change} (h : (payload change).length < 2 ^ 32) :
    decodeFrame? (encodeFrame change) = some (change, []) := by
  have hcrc : (crc32 (payload change)).toNat < 256 ^ 4 := (crc32 (payload change)).toNat_lt
  have hlength : (payload change).length < 256 ^ 4 := h
  refine decodeFrame?_eq_some_iff.mpr
    ⟨LittleEndian.encode 4 (crc32 (payload change)).toNat,
      LittleEndian.encode 4 (payload change).length, payload change, ?_, ?_, ?_, ?_, ?_, ?_⟩
  · exact LittleEndian.length_encode 4 _
  · exact LittleEndian.length_encode 4 _
  · rw [LittleEndian.decode_encode, Nat.mod_eq_of_lt hlength]
  · rw [LittleEndian.decode_encode, Nat.mod_eq_of_lt hcrc]
  · exact decodePayload?_payload (Nat.lt_trans h (by decide))
  · rw [encodeFrame, frameOf, List.append_assoc, List.append_nil]

/-- A change that was decoded from a frame can be written in a frame. -/
theorem length_payload_lt_of_decodeFrame? {bytes rest : Bytes} {change : Change}
    (h : decodeFrame? bytes = some (change, rest)) : (payload change).length < 2 ^ 32 := by
  obtain ⟨checksum, length, payload, hchecksum, hlength, hpayload, hcrc, hchange, rfl⟩ :=
    decodeFrame?_eq_some_iff.mp h
  have hle := length_payload_le hchange
  have hlt := LittleEndian.decode_lt length
  rw [hlength] at hlt
  omega

end Log
end KeyTable
