import Mathlib
import KeyTable.Dump.Value
import KeyTable.Proofs.Bytes.Lines

/-!
# Which values are written as text

A value is meant to be written as text if it is empty, or if it ends in a zero byte and has
nothing but printable ASCII and blanks before it, in lines of at most 256 bytes (`Textual`).

The lines are measured from newline to newline, so a line that has a newline in front of it
is measured with that newline: the first line may have 256 bytes, all others only 255.

* `linesFit_iff` — which lines pass the measure.
* `isBinary_eq_false_iff` — what is written as text is what is meant to be, less the values
  that have a line of just 256 bytes behind a newline.
* `isBinary_of_newline_long_line` — such a value.
-/

namespace KeyTable
namespace Dump

/-! ## Values that are meant to be text -/

/-- Is this value meant to be written as text?  It is empty, or there is a zero byte behind
a text of printable ASCII and blanks that has no line of more than 256 bytes. -/
def Textual (value : Bytes) : Prop :=
  value = [] ∨
    value.getLast? = some Ascii.nul ∧
      (∀ b ∈ value.dropLast, 0x20 ≤ b ∧ b ≤ 0x7e ∨ b ∈ [0x20, 0x09, 0x0a, 0x0b, 0x0c, 0x0d]) ∧
        ∀ line ∈ value.dropLast.splitOn Ascii.newline, line.length ≤ 256

instance (value : Bytes) : Decidable (Textual value) := inferInstanceAs (Decidable (_ ∨ _))

theorem isReadable_iff (b : UInt8) :
    Ascii.isReadable b = true ↔
      0x20 ≤ b ∧ b ≤ 0x7e ∨ b ∈ [0x20, 0x09, 0x0a, 0x0b, 0x0c, 0x0d] := by
  simp only [Ascii.isReadable, Ascii.isPrintable, Ascii.isBlank, Bool.or_eq_true, Bool.and_eq_true,
    decide_eq_true_iff, beq_iff_eq, List.mem_cons, List.not_mem_nil, or_false,
    UInt8.le_iff_toNat_le, ← UInt8.toNat_inj, UInt8.reduceToNat]
  omega

/-! ## The measure of a line -/

/-- The lines of a text pass, when `span` bytes of the first have been read before, if the
first is at most `maxSpan` bytes long in all and each of the others is shorter. -/
theorem linesFit_iff {text first : Bytes} {later : List Bytes} (span : Nat)
    (hlines : text.splitOn Ascii.newline = first :: later) :
    linesFit span text = true ↔
      span + first.length ≤ maxSpan ∧ ∀ line ∈ later, line.length < maxSpan := by
  induction text generalizing span first later with
  | nil =>
    obtain ⟨rfl, rfl⟩ := List.cons.inj hlines
    simp [linesFit]
  | cons b text ih =>
    obtain ⟨next, others, hnext⟩ := List.exists_cons_of_ne_nil (text.splitOn_ne_nil Ascii.newline)
    rw [List.splitOn_cons_eq_if_modifyHead, hnext] at hlines
    by_cases hb : b = Ascii.newline
    · rw [if_pos (beq_iff_eq.mpr hb)] at hlines
      obtain ⟨rfl, rfl⟩ := List.cons.inj hlines
      rw [linesFit, if_pos hb, Bool.and_eq_true, ih 1 hnext, decide_eq_true_iff,
        List.forall_mem_cons, List.length_nil, Nat.add_zero, Nat.add_comm 1, Nat.succ_le_iff]
    · rw [if_neg (by rwa [beq_iff_eq]), List.modifyHead_cons] at hlines
      obtain ⟨rfl, rfl⟩ := List.cons.inj hlines
      rw [linesFit, if_neg hb, ih (span + 1) hnext, List.length_cons, Nat.add_assoc,
        Nat.add_comm 1]

/-! ## Values that are written as text -/

/-- A value is written as text exactly if it is meant to be and has no line of just 256
bytes behind a newline. -/
theorem isBinary_eq_false_iff (value : Bytes) :
    isBinary value = false ↔
      Textual value ∧
        ∀ line ∈ (value.dropLast.splitOn Ascii.newline).tail, line.length ≠ 256 := by
  obtain ⟨first, later, hlines⟩ :=
    List.exists_cons_of_ne_nil (value.dropLast.splitOn_ne_nil Ascii.newline)
  rcases List.eq_nil_or_concat value with rfl | ⟨text, last, rfl⟩
  · simp [isBinary, Textual]
  · rw [List.concat_eq_append, List.dropLast_concat] at hlines ⊢
    have hlength : (0 + first.length ≤ maxSpan ∧ ∀ line ∈ later, line.length < maxSpan) ↔
        (∀ line ∈ first :: later, line.length ≤ 256) ∧ ∀ line ∈ later, line.length ≠ 256 := by
      simp only [List.forall_mem_cons, Nat.zero_add, Nat.lt_iff_le_and_ne, forall_and, maxSpan]
      tauto
    have hbinary : isBinary (text ++ [last]) = false ↔
        last = Ascii.nul ∧ (∀ b ∈ text, Ascii.isReadable b = true) ∧ linesFit 0 text = true := by
      simp [isBinary, and_assoc]
    rw [hbinary, linesFit_iff 0 hlines, hlength]
    simp [Textual, isReadable_iff, hlines, and_assoc]

/-- A value of a newline and 256 letters is meant to be text, but is written in base64. -/
theorem isBinary_of_newline_long_line :
    Textual (Ascii.newline :: List.replicate 256 0x78 ++ [Ascii.nul]) ∧
      isBinary (Ascii.newline :: List.replicate 256 0x78 ++ [Ascii.nul]) = true := by
  have hdrop : (Ascii.newline :: List.replicate 256 0x78 ++ [Ascii.nul]).dropLast =
      Ascii.newline :: List.replicate 256 0x78 := List.dropLast_concat
  refine ⟨.inr ⟨List.getLast?_concat, ?_, ?_⟩, by decide +kernel⟩
  · rw [hdrop]
    intro b hb
    rcases List.mem_cons.mp hb with rfl | hletter
    · decide
    · rw [List.eq_of_mem_replicate hletter]
      decide
  · rw [hdrop]
    decide +kernel

end Dump
end KeyTable
