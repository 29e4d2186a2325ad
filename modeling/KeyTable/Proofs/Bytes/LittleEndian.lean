import Mathlib.Algebra.Group.Nat.Defs
import KeyTable.Bytes.LittleEndian

/-!
# What a number of a fixed width keeps

A round trip leaves a number modulo the bound of its width (`decode_encode`), so
numbers below the bound that are written the same are the same (`eq_of_encode_eq`).
Byte strings of one width that write the same number are the same, too
(`eq_of_decode_eq`).
-/

namespace KeyTable
namespace LittleEndian

/-- Reading back what was written gives the number modulo the width. -/
theorem decode_encode (width n : Nat) : decode (encode width n) = n % 256 ^ width := by
  induction width generalizing n with
  | zero => simp [encode, decode, Nat.mod_one]
  | succ w ih =>
    rw [encode, decode, ih, Nat.pow_succ, Nat.mul_comm (256 ^ w), Nat.mod_mul]
    simp [UInt8.toNat_ofNat']

/-- Two numbers that fit the width and are written the same are the same. -/
theorem eq_of_encode_eq {width m n : Nat} (hm : m < 256 ^ width) (hn : n < 256 ^ width)
    (h : encode width m = encode width n) : m = n := by
  have hdecode := congrArg decode h
  rw [decode_encode, decode_encode, Nat.mod_eq_of_lt hm, Nat.mod_eq_of_lt hn] at hdecode
  exact hdecode

/-- A byte string writes a number below the bound of its width. -/
theorem decode_lt (bytes : Bytes) : decode bytes < 256 ^ bytes.length := by
  induction bytes with
  | nil => simp [decode]
  | cons b rest ih =>
    have hb := b.toNat_lt
    simp only [decode, List.length_cons, Nat.pow_succ]
    omega

/-- Two byte strings of one length that write the same number are the same. -/
theorem eq_of_decode_eq {bytes others : Bytes} (hlength : bytes.length = others.length)
    (h : decode bytes = decode others) : bytes = others := by
  induction bytes generalizing others with
  | nil => exact (List.eq_nil_of_length_eq_zero hlength.symm).symm
  | cons b bytes ih =>
    have hpos : 0 < others.length := by
      rw [← hlength]
      exact Nat.succ_pos _
    obtain ⟨c, others, rfl⟩ := List.exists_cons_of_length_pos hpos
    have hb := b.toNat_lt
    have hc := c.toNat_lt
    simp only [decode] at h
    have hfirst : b.toNat = c.toNat := by omega
    have hrest : decode bytes = decode others := by omega
    rw [UInt8.toNat_inj.mp hfirst, ih (Nat.succ.inj hlength) hrest]

end LittleEndian
end KeyTable
