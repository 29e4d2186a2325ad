import Mathlib.Algebra.Group.Nat.Defs
import Mathlib.Order.Bounds.Defs
import Mathlib.Tactic.SplitIfs
import KeyTable.Proofs.MemoryTable.Layout

/-!
# Offsets of values

A value starts behind its key, at a multiple of the largest of eight, four, two and one bytes that
is not longer than the value itself.  This file says that the offset is the first such place, and
that the arithmetic of machine words finds it.

* `isLeast_valueOffset` — the offset is the least multiple that is not inside the key.
* `valueOffset_mono` — a longer value never starts earlier, for each alignment divides the larger
  ones.
* `toNat_wordOffset` — in machine words, an addition and a mask come to the same offset, as long
  as the sum does not overflow.
-/

namespace KeyTable

/-! ## The least multiple -/

/-- A number rounded up is the least multiple that is not below it. -/
theorem isLeast_roundUp (n : Nat) {step : Nat} (h : 0 < step) :
    IsLeast {multiple | step ∣ multiple ∧ n ≤ multiple} (roundUp n step) := by
  refine ⟨⟨Nat.dvd_mul_left step _, le_roundUp n h⟩, ?_⟩
  rintro multiple ⟨⟨quotient, rfl⟩, hle⟩
  have hdiv : (n + step - 1) / step ≤ quotient := by
    rw [← Nat.lt_succ_iff, Nat.div_lt_iff_lt_mul h, Nat.succ_mul, Nat.mul_comm quotient]
    omega
  rw [roundUp, Nat.mul_comm step]
  exact Nat.mul_le_mul_right step hdiv

/-- The value starts at the least multiple of its alignment that is not inside the key. -/
theorem isLeast_valueOffset (keyLength valueLength : Nat) :
    IsLeast {offset | valueAlignment valueLength ∣ offset ∧ keyLength ≤ offset}
      (valueOffset keyLength valueLength) :=
  isLeast_roundUp keyLength (valueAlignment_pos valueLength)

/-! ## Longer values -/

/-- The alignment is the largest power of two up to eight that is not above the length. -/
theorem valueAlignment_eq_two_pow (valueLength : Nat) :
    valueAlignment valueLength = 2 ^ min valueLength.log2 3 := by
  by_cases hzero : valueLength = 0
  · subst hzero
    rfl
  · have height : 3 ≤ valueLength.log2 ↔ 8 ≤ valueLength := Nat.le_log2 hzero
    have hfour : 2 ≤ valueLength.log2 ↔ 4 ≤ valueLength := Nat.le_log2 hzero
    have htwo : 1 ≤ valueLength.log2 ↔ 2 ≤ valueLength := Nat.le_log2 hzero
    have hmin : min valueLength.log2 3 =
        if 8 ≤ valueLength then 3 else if 4 ≤ valueLength then 2
        else if 2 ≤ valueLength then 1 else 0 := by
      split_ifs <;> omega
    rw [hmin, valueAlignment]
    split_ifs <;> rfl

theorem valueAlignment_dvd {shorter longer : Nat} (h : shorter ≤ longer) :
    valueAlignment shorter ∣ valueAlignment longer := by
  rw [valueAlignment_eq_two_pow, valueAlignment_eq_two_pow]
  refine Nat.pow_dvd_pow 2 ?_
  have hlog : shorter.log2 ≤ longer.log2 := by
    by_cases hzero : shorter = 0
    · subst hzero
      exact Nat.zero_le _
    · have hlonger : longer ≠ 0 := by omega
      exact (Nat.le_log2 hlonger).mpr (Nat.le_trans (Nat.log2_self_le hzero) h)
  omega

/-- A longer value never starts earlier. -/
theorem valueOffset_mono (keyLength : Nat) {shorter longer : Nat} (h : shorter ≤ longer) :
    valueOffset keyLength shorter ≤ valueOffset keyLength longer := by
  obtain ⟨hmultiple, hbehind⟩ := (isLeast_valueOffset keyLength longer).1
  exact (isLeast_valueOffset keyLength shorter).2
    ⟨Nat.dvd_trans (valueAlignment_dvd h) hmultiple, hbehind⟩

/-! ## Machine words -/

/-- What the offset of a value of at least two bytes is a multiple of, as a machine word. -/
def wordAlignment (valueLength : UInt64) : UInt64 :=
  if 8 ≤ valueLength then 8 else if 4 ≤ valueLength then 4 else 2

/-- Where the value starts, in machine words: the sum goes past the next multiple of the alignment,
and the mask clears what is too much. -/
def wordOffset (keyLength valueLength : UInt64) : UInt64 :=
  if valueLength < 2 then keyLength
  else (keyLength + wordAlignment valueLength - 1) &&& ~~~(wordAlignment valueLength - 1)

theorem toNat_wordAlignment {valueLength : UInt64} (h : 2 ≤ valueLength.toNat) :
    (wordAlignment valueLength).toNat = valueAlignment valueLength.toNat := by
  have hfour : 4 ≤ valueLength ↔ 4 ≤ valueLength.toNat := UInt64.le_iff_toNat_le
  have height : 8 ≤ valueLength ↔ 8 ≤ valueLength.toNat := UInt64.le_iff_toNat_le
  rw [wordAlignment, valueAlignment, if_pos h]
  simp only [height, hfour]
  split_ifs <;> rfl

/-- The bits of a word that is complemented. -/
theorem testBit_not (word : UInt64) (i : Nat) :
    (~~~word).toNat.testBit i = (decide (i < 64) && !word.toNat.testBit i) := by
  have hsize : UInt64.size = 2 ^ 64 := rfl
  have hcomplement : (~~~word).toNat = 2 ^ 64 - (word.toNat + 1) := by
    rw [UInt64.toNat_not, hsize, Nat.sub_sub, Nat.add_comm 1]
  rw [hcomplement, Nat.testBit_two_pow_sub_succ word.toNat_lt]

/-- Clearing the low bits of a word rounds it down. -/
theorem toNat_and_not_low {word mask : UInt64} {bits : Nat} (h : mask.toNat = 2 ^ bits - 1) :
    (word &&& ~~~mask).toNat = word.toNat / 2 ^ bits * 2 ^ bits := by
  refine Nat.eq_of_testBit_eq fun i => ?_
  rw [UInt64.toNat_and, Nat.testBit_and, testBit_not, h, Nat.testBit_two_pow_sub_one,
    Nat.testBit_mul_two_pow, Nat.testBit_div_two_pow]
  by_cases hbit : bits ≤ i
  · rw [Nat.sub_add_cancel hbit]
    by_cases hword : i < 64
    · simp [hbit, hword, Nat.not_lt.mpr hbit]
    · -- a word has no bits up there
      have hlt : word.toNat < 2 ^ i :=
        Nat.lt_of_lt_of_le word.toNat_lt (Nat.pow_le_pow_right (by decide) (by omega))
      simp [Nat.testBit_lt_two_pow hlt]
  · simp [hbit, Nat.lt_of_not_le hbit]

/-- In machine words the value starts where it should, as long as the sum does not overflow. -/
theorem toNat_wordOffset {keyLength valueLength : UInt64}
    (h : keyLength.toNat + (valueAlignment valueLength.toNat - 1) < 2 ^ 64) :
    (wordOffset keyLength valueLength).toNat =
      valueOffset keyLength.toNat valueLength.toNat := by
  have htwo : valueLength < 2 ↔ valueLength.toNat < 2 := UInt64.lt_iff_toNat_lt
  by_cases hshort : valueLength.toNat < 2
  · have hone : valueAlignment valueLength.toNat = 1 := by
      rw [valueAlignment, if_neg (by omega), if_neg (by omega), if_neg (by omega)]
    rw [wordOffset, if_pos (htwo.mpr hshort), valueOffset, hone, roundUp, Nat.div_one,
      Nat.mul_one, Nat.add_sub_cancel]
  · have hpos := valueAlignment_pos valueLength.toNat
    have hstep := toNat_wordAlignment (Nat.not_lt.mp hshort)
    have hsum : (keyLength + wordAlignment valueLength - 1).toNat =
        keyLength.toNat + valueAlignment valueLength.toNat - 1 := by
      -- the sum may come to 2^64 and wrap around, and to take one off brings it back
      have hone : (1 : UInt64).toNat = 1 := rfl
      rw [UInt64.toNat_sub, UInt64.toNat_add, hstep, hone]
      omega
    have hmask : (wordAlignment valueLength - 1).toNat =
        2 ^ min valueLength.toNat.log2 3 - 1 := by
      rw [← valueAlignment_eq_two_pow, ← hstep]
      refine UInt64.toNat_sub_of_le _ _ ?_
      rw [UInt64.le_iff_toNat_le, hstep]
      exact hpos
    rw [wordOffset, if_neg (mt htwo.mp hshort), toNat_and_not_low hmask, hsum,
      ← valueAlignment_eq_two_pow]
    rfl

end KeyTable
