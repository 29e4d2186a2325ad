import KeyTable.Proofs.Checksum
import KeyTable.Proofs.Log.Written

/-!
# Damage to a log

Of a frame, the checksum and the payload are guarded by each other: no single byte of either
can change without the other giving it away.  The length is not guarded in this way, since
another length makes another payload.  Zero bytes, as a file may end in where it was
enlarged and not written, do match: the checksum of no bytes is zero.  But no bytes are no
change.

* `decodeFrame?_set` — a frame with a changed byte in its guarded part is not read back.
* `decodeFrame?_zeros` — zero bytes are no frame.
* `replay_damaged` — so a log with a changed byte is replayed up to the frame that has it,
  and a log with zero bytes behind it as if they were not there.
-/

namespace KeyTable
namespace Log

/-! ## One frame -/

/-- Does this byte of the frame of a change belong to the checksum or to the payload? -/
def Guarded (change : Change) (offset : Nat) : Prop :=
  offset < 4 ∨ frameHeaderSize ≤ offset ∧ offset < (encodeFrame change).length

instance (change : Change) (offset : Nat) : Decidable (Guarded change offset) :=
  inferInstanceAs (Decidable (_ ∨ _ ∧ _))

theorem Guarded.lt_length {change : Change} {offset : Nat} (h : Guarded change offset) :
    offset < (encodeFrame change).length := by
  rcases h with h | h
  · rw [length_encodeFrame, frameHeaderSize]
    omega
  · exact h.2

/-- A frame whose checksum is not that of its payload is not read back. -/
theorem decodeFrame?_of_crc32_ne {checksum payload : Bytes} (hchecksum : checksum.length = 4)
    (hlength : payload.length < 2 ^ 32)
    (h : LittleEndian.encode 4 (crc32 payload).toNat ≠ checksum) (rest : Bytes) :
    decodeFrame? (checksum ++ (LittleEndian.encode 4 payload.length ++ (payload ++ rest))) =
      none := by
  have hfound : LittleEndian.decode (LittleEndian.encode 4 payload.length) = payload.length :=
    (LittleEndian.decode_encode 4 payload.length).trans (Nat.mod_eq_of_lt hlength)
  have hcrc : (crc32 payload).toNat ≠ LittleEndian.decode checksum := by
    intro heq
    refine h (LittleEndian.eq_of_decode_eq ?_ ?_)
    · rw [LittleEndian.length_encode, hchecksum]
    · rw [LittleEndian.decode_encode, ← heq]
      exact Nat.mod_eq_of_lt (crc32 payload).toNat_lt
  rw [decodeFrame?_header hchecksum (LittleEndian.length_encode 4 _), hfound,
    takeExactly?_append rfl, Option.bind_some]
  exact if_neg hcrc

/-- A frame with a changed byte in its checksum is not read back. -/
theorem decodeFrame?_set_checksum {change : Change} (h : change.Framable) {offset : Nat}
    (hoffset : offset < 4) {b : UInt8} (hchanged : (encodeFrame change)[offset]? ≠ some b)
    (rest : Bytes) : decodeFrame? ((encodeFrame change).set offset b ++ rest) = none := by
  have hcrcLength := LittleEndian.length_encode 4 (crc32 (payload change)).toNat
  have hlt : offset < (LittleEndian.encode 4 (crc32 (payload change)).toNat).length := by
    rw [hcrcLength]
    exact hoffset
  rw [encodeFrame, frameOf, List.append_assoc] at hchanged ⊢
  rw [List.getElem?_append_left hlt] at hchanged
  rw [List.set_append_left _ _ hlt, List.append_assoc, List.append_assoc]
  refine decodeFrame?_of_crc32_ne ?_ h ?_ rest
  · rw [List.length_set, hcrcLength]
  · intro heq
    rw [heq, List.getElem?_set_self hlt] at hchanged
    exact hchanged rfl

/-- Nor is one with a changed byte in its payload. -/
theorem decodeFrame?_set_payload {change : Change} (h : change.Framable) {index : Nat}
    (hindex : index < (payload change).length) {b : UInt8}
    (hchanged : (encodeFrame change)[frameHeaderSize + index]? ≠ some b) (rest : Bytes) :
    decodeFrame? ((encodeFrame change).set (frameHeaderSize + index) b ++ rest) = none := by
  have hheader : (LittleEndian.encode 4 (crc32 (payload change)).toNat ++
      LittleEndian.encode 4 (payload change).length).length = frameHeaderSize := by
    rw [List.length_append, LittleEndian.length_encode, LittleEndian.length_encode,
      frameHeaderSize]
  rw [encodeFrame, frameOf] at hchanged ⊢
  rw [List.getElem?_append_right (by omega), hheader, Nat.add_sub_cancel_left,
    List.getElem?_eq_getElem hindex] at hchanged
  have hcrc := crc32_set_ne hindex fun heq => hchanged (congrArg some heq)
  -- the header says how long the payload is, which is as long as it was
  have hlength : ((payload change).set index b).length = (payload change).length :=
    List.length_set
  rw [List.set_append_right _ _ (by omega), hheader, Nat.add_sub_cancel_left, List.append_assoc,
    List.append_assoc, ← hlength]
  refine decodeFrame?_of_crc32_ne (LittleEndian.length_encode 4 _) ?_ ?_ rest
  · rw [hlength]
    exact h
  · intro heq
    have hnat := LittleEndian.eq_of_encode_eq (UInt32.toNat_lt _) (UInt32.toNat_lt _) heq
    exact hcrc (UInt32.toNat_inj.mp hnat)

/-- So any change of a guarded byte is noticed. -/
theorem decodeFrame?_set {change : Change} (h : change.Framable) {offset : Nat}
    (hguarded : Guarded change offset) {b : UInt8}
    (hchanged : (encodeFrame change)[offset]? ≠ some b) (rest : Bytes) :
    decodeFrame? ((encodeFrame change).set offset b ++ rest) = none := by
  rcases hguarded with hoffset | ⟨hfrom, hto⟩
  · exact decodeFrame?_set_checksum h hoffset hchanged rest
  · obtain ⟨index, rfl⟩ := Nat.exists_eq_add_of_le hfrom
    rw [length_encodeFrame] at hto
    exact decodeFrame?_set_payload h (Nat.lt_of_add_lt_add_left hto) hchanged rest

/-! ## Zero bytes -/

/-- However many zero bytes there are, they are no frame. -/
theorem decodeFrame?_zeros (count : Nat) : decodeFrame? (Bytes.zeros count) = none := by
  by_cases hshort : count < frameHeaderSize
  · refine decodeFrame?_of_lt ?_
    rw [Bytes.length_zeros]
    exact hshort
  · have hsplit : Bytes.zeros count =
        Bytes.zeros 4 ++ (Bytes.zeros 4 ++ Bytes.zeros (count - 8)) := by
      rw [frameHeaderSize] at hshort
      simp only [Bytes.zeros, List.replicate_append_replicate]
      congr 1
      omega
    -- they are the frame of an empty payload, with its checksum, and no change can be read from it
    have hempty : takeExactly? (LittleEndian.decode (Bytes.zeros 4)) (Bytes.zeros (count - 8)) =
        some ([], Bytes.zeros (count - 8)) := rfl
    rw [hsplit, decodeFrame?_header rfl rfl, hempty, Option.bind_some]
    exact ite_self none

/-! ## Whole logs -/

/-- Where the frame of a change starts in a log of changes. -/
def frameStart (changes : List Change) (k : Nat) : Nat := (logOf (changes.take k)).length

/-- A log up to a frame, the frame, and what is behind it. -/
theorem logOf_eq_append {changes : List Change} {k : Nat} (hk : k < changes.length) :
    logOf changes =
      logOf (changes.take k) ++
        (encodeFrame changes[k] ++ (changes.drop (k + 1)).flatMap encodeFrame) := by
  rw [← List.flatMap_cons, ← logOf_append, List.getElem_cons_drop, List.take_append_drop]

/-- A byte of a log that belongs to the frame of a change. -/
theorem getElem?_logOf {changes : List Change} {k : Nat} (hk : k < changes.length) {offset : Nat}
    (hoffset : offset < (encodeFrame changes[k]).length) :
    (logOf changes)[frameStart changes k + offset]? = (encodeFrame changes[k])[offset]? := by
  rw [logOf_eq_append hk, frameStart, List.getElem?_append_right (Nat.le_add_right _ _),
    Nat.add_sub_cancel_left, List.getElem?_append_left hoffset]

/-- To change it is to change the frame. -/
theorem set_logOf {changes : List Change} {k : Nat} (hk : k < changes.length) {offset : Nat}
    (hoffset : offset < (encodeFrame changes[k]).length) (b : UInt8) :
    (logOf changes).set (frameStart changes k + offset) b =
      logOf (changes.take k) ++ ((encodeFrame changes[k]).set offset b ++
        (changes.drop (k + 1)).flatMap encodeFrame) := by
  rw [logOf_eq_append hk, frameStart, List.set_append_right _ _ (Nat.le_add_right _ _),
    Nat.add_sub_cancel_left, List.set_append_left _ _ hoffset]

/-- A log of changes whose payloads can be written, where one byte of a checksum or of a
payload was changed, is replayed up to the frame of that byte, and the rest is discarded.  If
zero bytes are put behind such a log, they are discarded, and nothing else is. -/
theorem replay_damaged {changes : List Change} (h : ∀ change ∈ changes, change.Framable) :
    (∀ (k : Nat) (hk : k < changes.length) (offset : Nat) (b : UInt8),
      Guarded changes[k] offset →
      (logOf changes)[frameStart changes k + offset]? ≠ some b →
      replay ((logOf changes).set (frameStart changes k + offset) b) =
        .ok (changes.take k,
          { applied := k
            validLength := frameStart changes k
            discarded := (logOf changes).length - frameStart changes k })) ∧
    ∀ count, replay (logOf changes ++ Bytes.zeros count) =
      .ok (changes,
        { applied := changes.length
          validLength := (logOf changes).length
          discarded := count }) := by
  refine ⟨?_, ?_⟩
  · intro k hk offset b hguarded hchanged
    rw [getElem?_logOf hk hguarded.lt_length] at hchanged
    have hrest := decodeFrame?_set (h _ (List.getElem_mem hk)) hguarded hchanged
      ((changes.drop (k + 1)).flatMap encodeFrame)
    have hfront : ∀ change ∈ changes.take k, change.Framable :=
      fun change hchange => h change (List.mem_of_mem_take hchange)
    have hreplay := replay_logOf_append hfront hrest
    have hdiscarded : ((encodeFrame changes[k]).set offset b ++
        (changes.drop (k + 1)).flatMap encodeFrame).length =
        (logOf changes).length - frameStart changes k := by
      rw [List.length_append, List.length_set, logOf_eq_append hk, frameStart, List.length_append,
        Nat.add_sub_cancel_left, List.length_append]
    rw [← set_logOf hk hguarded.lt_length, hdiscarded,
      List.length_take_of_le (Nat.le_of_lt hk)] at hreplay
    exact hreplay
  · intro count
    have hreplay := replay_logOf_append h (decodeFrame?_zeros count)
    rw [Bytes.length_zeros] at hreplay
    exact hreplay

/-- The last byte of the first payload, the first of the second checksum, and zero bytes
behind both. -/
theorem replay_damaged_two :
    let changes : List Change := [.store [0x61, 0x00] [0x31, 0x00], .delete [0x61, 0x00]]
    (∀ change ∈ changes, change.Framable) ∧
      replay ((logOf changes).set 37 0x01) =
        .ok ([], { applied := 0, validLength := 6, discarded := 54 }) ∧
      replay ((logOf changes).set 38 0xff) =
        .ok (changes.take 1, { applied := 1, validLength := 38, discarded := 22 }) ∧
      replay (logOf changes ++ Bytes.zeros 100) =
        .ok (changes, { applied := 2, validLength := 60, discarded := 100 }) := by
  intro changes
  have hframable : ∀ change ∈ changes, change.Framable := by decide
  obtain ⟨hdamaged, hzeros⟩ := replay_damaged hframable
  refine ⟨hframable, ?_, ?_, hzeros 100⟩
  · exact hdamaged 0 (by decide) 31 0x01 (by decide) (by decide)
  · exact hdamaged 1 (by decide) 0 0xff (by decide) (by decide +kernel)

end Log
end KeyTable
