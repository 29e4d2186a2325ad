import KeyTable.MemoryTable.Record

/-!
# The layout of a record

A record keeps key, gap and value in one buffer, and moves the value whenever
its length changes.  This file shows that none of this can be seen from outside.

* `le_valueOffset` — the value never starts inside the key.
* `Record.Sound` — the buffer reaches to the end of the value.  It holds of a
  fresh record (`sound_make`) and survives every change (`sound_assign`,
  `sound_patch`).
* `key_assign`, `value_assign` — after an assignment the key is the old one and
  the value the new one, whether the buffer was reused or not; `key_patch` and
  `value_patch` say the same of bytes written over the start of a value.
-/

namespace KeyTable

/-! ## Where the value starts -/

theorem valueAlignment_pos (valueLength : Nat) : 0 < valueAlignment valueLength := by
  unfold valueAlignment
  split
  · decide
  · split
    · decide
    · split <;> decide

/-- Rounding up never goes below the number. -/
theorem le_roundUp (n : Nat) {step : Nat} (h : 0 < step) : n ≤ roundUp n step := by
  have hdiv := Nat.div_add_mod (n + step - 1) step
  have hmod := Nat.mod_lt (n + step - 1) h
  rw [Nat.mul_comm] at hdiv
  unfold roundUp
  omega

/-- The value never starts inside the key. -/
theorem le_valueOffset (keyLength valueLength : Nat) :
    keyLength ≤ valueOffset keyLength valueLength :=
  le_roundUp keyLength (valueAlignment_pos valueLength)

namespace Record

/-! ## Sound records -/

/-- The buffer of a record reaches to the end of its value. -/
def Sound (record : Record) : Prop := record.offset + record.valueLength ≤ record.buffer.length

theorem keyLength_le_offset (record : Record) : record.keyLength ≤ record.offset :=
  le_valueOffset record.keyLength record.valueLength

theorem Sound.keyLength_le {record : Record} (h : record.Sound) :
    record.keyLength ≤ record.buffer.length :=
  Nat.le_trans (Nat.le_trans record.keyLength_le_offset (Nat.le_add_right _ _)) h

theorem Sound.length_key {record : Record} (h : record.Sound) :
    record.key.length = record.keyLength := by
  rw [key, List.length_take, Nat.min_eq_left h.keyLength_le]

theorem Sound.length_value {record : Record} (h : record.Sound) :
    record.value.length = record.valueLength := by
  unfold Sound at h
  rw [value, List.length_take, List.length_drop]
  omega

/-- A sound record has a key exactly when the key is its own. -/
theorem Sound.hasKey_iff {record : Record} (h : record.Sound) (other : Bytes) :
    record.hasKey other = true ↔ record.key = other := by
  simp only [hasKey, Bool.and_eq_true, beq_iff_eq]
  constructor
  · exact fun hboth => hboth.2
  · intro hkey
    exact ⟨by rw [← hkey, h.length_key], hkey⟩

/-! ## Fresh records -/

theorem sound_make (key : Bytes) (content : Content) : (make key content).Sound := by
  show valueOffset key.length content.length + content.length ≤ _
  simp only [make, Bytes.overwrite, List.length_append, Bytes.length_resize,
    Content.length_toBytes]
  omega

@[simp] theorem key_make (key : Bytes) (content : Content) : (make key content).key = key := by
  show (key.overwrite _ _).take key.length = key
  rw [Bytes.take_overwrite (le_valueOffset _ _) (Nat.le_refl _), List.take_length]

@[simp] theorem value_make (key : Bytes) (content : Content) :
    (make key content).value = content.toBytes := by
  show ((key.overwrite (valueOffset key.length content.length) content.toBytes).drop
    (valueOffset key.length content.length)).take content.length = _
  rw [Bytes.drop_overwrite, ← Content.length_toBytes, List.take_left]

/-! ## Values written over old ones -/

theorem fits_iff (record : Record) (valueLength : Nat) :
    record.fits valueLength = true ↔
      valueOffset record.keyLength valueLength + valueLength ≤ record.buffer.length := by
  simp [fits]

section Overwrite

variable {record : Record} {content : Content} (h : record.fits content.length = true)
include h

theorem length_buffer_overwrite :
    (record.overwrite content).buffer.length = record.buffer.length := by
  refine Bytes.length_overwrite ?_
  rw [Content.length_toBytes]
  exact (record.fits_iff _).1 h

theorem sound_overwrite : (record.overwrite content).Sound := by
  show valueOffset record.keyLength content.length + content.length ≤ _
  rw [length_buffer_overwrite h]
  exact (record.fits_iff _).1 h

theorem key_overwrite : (record.overwrite content).key = record.key := by
  have hfits := (record.fits_iff _).1 h
  have hoffset := le_valueOffset record.keyLength content.length
  have hlength : record.keyLength ≤ record.buffer.length := by omega
  exact Bytes.take_overwrite hoffset hlength

end Overwrite

@[simp] theorem value_overwrite (record : Record) (content : Content) :
    (record.overwrite content).value = content.toBytes := by
  show ((record.buffer.overwrite (valueOffset record.keyLength content.length)
    content.toBytes).drop (valueOffset record.keyLength content.length)).take content.length = _
  rw [Bytes.drop_overwrite, ← Content.length_toBytes, List.take_left]

/-! ## Assigning and patching -/

theorem sound_assign (record : Record) (content : Content) : (record.assign content).Sound := by
  unfold assign
  split
  · next h => exact sound_overwrite h
  · exact sound_make _ _

/-- An assignment keeps the key. -/
@[simp] theorem key_assign (record : Record) (content : Content) :
    (record.assign content).key = record.key := by
  unfold assign
  split
  · next h => exact key_overwrite h
  · exact key_make _ _

/-- After an assignment the value is the new one, whichever buffer it is in. -/
@[simp] theorem value_assign (record : Record) (content : Content) :
    (record.assign content).value = content.toBytes := by
  unfold assign
  split
  · exact value_overwrite _ _
  · exact value_make _ _

/-- The bytes of a value after others were written over its start. -/
def patched (value bytes : Bytes) : Bytes := bytes.take value.length ++ value.drop bytes.length

/-- As many bytes as the value has replace it as a whole. -/
theorem patched_of_length_eq {value bytes : Bytes} (h : bytes.length = value.length) :
    patched value bytes = bytes := by
  rw [patched, h, List.drop_length, ← h, List.take_length, List.append_nil]

section Patch

variable {record : Record} (h : record.Sound) (bytes : Bytes)
include h

theorem length_buffer_patch : (record.patch bytes).buffer.length = record.buffer.length := by
  refine Bytes.length_overwrite ?_
  unfold Sound at h
  rw [List.length_take]
  omega

theorem sound_patch : (record.patch bytes).Sound := by
  show record.offset + record.valueLength ≤ _
  rw [length_buffer_patch h]
  exact h

theorem key_patch : (record.patch bytes).key = record.key :=
  Bytes.take_overwrite record.keyLength_le_offset h.keyLength_le

theorem value_patch : (record.patch bytes).value = patched record.value bytes := by
  show ((record.buffer.overwrite record.offset (bytes.take record.valueLength)).drop
    record.offset).take record.valueLength = _
  rw [Bytes.drop_overwrite, patched, h.length_value, List.take_append, List.take_take,
    Nat.min_self]
  congr 1
  rw [value, List.drop_take, List.drop_drop, List.length_take]
  by_cases hle : bytes.length ≤ record.valueLength
  · rw [Nat.min_eq_right hle]
  · have hlt : record.valueLength ≤ bytes.length := by omega
    rw [Nat.min_eq_left hlt, Nat.sub_self, Nat.sub_eq_zero_of_le hlt]
    simp

end Patch

end Record

end KeyTable
