import Mathlib.Data.Nat.Bitwise
import Mathlib.Logic.Function.Basic
import KeyTable.Checksum

/-!
# What a checksum tells apart

No two registers become the same when the same bytes are fed to both, and no two bytes
leave the same register behind when they are fed to one.  So the checksums of two byte
strings differ if the byte strings differ in a single byte, wherever that is and however
long they are.

* `shift_injective` — the highest bit of a shifted register says which bit fell out, so a
  shift can be taken back.
* `feed_injective`, `feed_register_injective` — neither the byte nor the register that took
  it is forgotten.
* `crc32_set_ne` — a change of one byte changes the checksum.
-/

namespace KeyTable
namespace Crc32

/-! ## Shifting by one bit -/

theorem and_one_eq_iff (register : UInt32) : register &&& 1 = 1 ↔ register.toNat % 2 = 1 := by
  rw [← UInt32.toNat_inj, UInt32.toNat_and]
  show register.toNat &&& 1 = 1 ↔ _
  rw [Nat.and_one_is_mod]

theorem toNat_shiftRight_one (register : UInt32) :
    (register >>> 1).toNat = register.toNat / 2 := by
  rw [UInt32.toNat_shiftRight]
  exact Nat.shiftRight_eq_div_pow register.toNat 1

/-- A register whose lowest bit fell out has no highest bit. -/
theorem toNat_shiftRight_one_lt (register : UInt32) : (register >>> 1).toNat < 2 ^ 31 := by
  have hlt := register.toNat_lt
  rw [toNat_shiftRight_one]
  omega

/-- It gets one when the polynomial is fed back in. -/
theorem le_toNat_xor_polynomial {register : UInt32} (h : register.toNat < 2 ^ 31) :
    2 ^ 31 ≤ (register ^^^ polynomial).toNat := by
  refine Nat.ge_two_pow_of_testBit ?_
  rw [UInt32.toNat_xor, Nat.testBit_xor, Nat.testBit_lt_two_pow h]
  decide

/-- A register is known by the bit that falls out and by the others. -/
theorem eq_of_shiftRight_one {register other : UInt32}
    (hlowest : register &&& 1 = 1 ↔ other &&& 1 = 1)
    (hothers : register >>> 1 = other >>> 1) : register = other := by
  have hhalf := congrArg UInt32.toNat hothers
  rw [toNat_shiftRight_one, toNat_shiftRight_one] at hhalf
  rw [and_one_eq_iff, and_one_eq_iff] at hlowest
  refine UInt32.toNat_inj.mp ?_
  omega

/-- A shift where the polynomial was fed back in, and one where it was not, do not end in the
same register. -/
theorem shiftRight_xor_polynomial_ne (register other : UInt32) :
    (register >>> 1) ^^^ polynomial ≠ other >>> 1 := by
  intro heq
  have hle := le_toNat_xor_polynomial (toNat_shiftRight_one_lt register)
  have hlt := toNat_shiftRight_one_lt other
  rw [heq] at hle
  exact Nat.not_lt_of_le hle hlt

theorem shift_injective : Function.Injective shift := by
  intro register other h
  unfold shift at h
  by_cases hregister : register &&& 1 = 1
  · by_cases hother : other &&& 1 = 1
    · rw [if_pos hregister, if_pos hother, UInt32.xor_left_inj] at h
      exact eq_of_shiftRight_one (iff_of_true hregister hother) h
    · rw [if_pos hregister, if_neg hother] at h
      exact absurd h (shiftRight_xor_polynomial_ne register other)
  · by_cases hother : other &&& 1 = 1
    · rw [if_neg hregister, if_pos hother] at h
      exact absurd h.symm (shiftRight_xor_polynomial_ne other register)
    · rw [if_neg hregister, if_neg hother] at h
      exact eq_of_shiftRight_one (iff_of_false hregister hother) h

/-! ## Taking bytes in -/

/-- What is taken in before the register is shifted. -/
theorem xor_eq_of_feed_eq {register other : UInt32} {b c : UInt8}
    (h : feed register b = feed other c) : register ^^^ b.toUInt32 = other ^^^ c.toUInt32 :=
  -- a byte is eight shifts
  shift_injective <| shift_injective <| shift_injective <| shift_injective <|
    shift_injective <| shift_injective <| shift_injective <| shift_injective h

/-- No two bytes leave the same register behind. -/
theorem feed_injective (register : UInt32) : Function.Injective (feed register) := by
  intro b c h
  have hbyte := congrArg UInt32.toNat ((UInt32.xor_right_inj register).mp (xor_eq_of_feed_eq h))
  rw [UInt8.toNat_toUInt32, UInt8.toNat_toUInt32] at hbyte
  exact UInt8.toNat_inj.mp hbyte

/-- No two registers become the same by the same byte. -/
theorem feed_register_injective (b : UInt8) : Function.Injective (feed · b) := by
  intro register other h
  exact (UInt32.xor_left_inj b.toUInt32).mp (xor_eq_of_feed_eq h)

/-- Nor do they by any number of bytes. -/
theorem foldl_feed_injective (bytes : Bytes) : Function.Injective (bytes.foldl feed) := by
  induction bytes with
  | nil => exact Function.injective_id
  | cons b bytes ih => exact ih.comp (feed_register_injective b)

end Crc32

/-! ## Checksums -/

/-- Byte strings that differ in a single byte have different checksums. -/
theorem crc32_ne_of_byte_ne {b c : UInt8} (h : b ≠ c) (front back : Bytes) :
    crc32 (front ++ b :: back) ≠ crc32 (front ++ c :: back) := by
  intro heq
  rw [crc32, crc32, UInt32.not_inj, List.foldl_append, List.foldl_append, List.foldl_cons,
    List.foldl_cons] at heq
  exact h (Crc32.feed_injective _ (Crc32.foldl_feed_injective back heq))

/-- Setting a byte to another value changes the checksum. -/
theorem crc32_set_ne {bytes : Bytes} {index : Nat} (hindex : index < bytes.length) {b : UInt8}
    (h : bytes[index] ≠ b) : crc32 (bytes.set index b) ≠ crc32 bytes := by
  have hsplit : bytes = bytes.take index ++ bytes[index] :: bytes.drop (index + 1) := by
    rw [List.getElem_cons_drop, List.take_append_drop]
  rw [List.set_eq_take_append_cons_drop, if_pos hindex]
  conv_rhs => rw [hsplit]
  exact crc32_ne_of_byte_ne (Ne.symm h) _ _

end KeyTable
