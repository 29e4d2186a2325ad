import Mathlib.Tactic.IntervalCases
import KeyTable.Base64

/-!
# Base64 reads back what it writes

* `octet₀_sextets`, `octet₁_sextets`, `octet₂_sextets` — a byte is put together from
  the parts that it was taken into.
* `decode?_encode` — reading a written text gives the bytes back.
* `isSymbol_of_mem_encode` — a written text has no characters but those of the
  alphabet and the padding, so it is a line, and no header.
* `length_le_of_decode?` — a text has at least as many characters as it writes bytes.
-/

namespace KeyTable
namespace Base64

/-! ## Bytes and their parts -/

section Parts

variable (a b c : UInt8)

theorem octet₀_sextets : octet₀ (sextet₀ a) (sextet₁ a b) = a := by
  unfold octet₀ sextet₀ sextet₁
  refine UInt8.toBitVec_inj.mp ?_
  ext i hi
  simp
  interval_cases i <;> simp

theorem octet₁_sextets : octet₁ (sextet₁ a b) (sextet₂ b c) = b := by
  unfold octet₁ sextet₁ sextet₂
  refine UInt8.toBitVec_inj.mp ?_
  ext i hi
  simp
  interval_cases i <;> simp

theorem octet₂_sextets : octet₂ (sextet₂ b c) (sextet₃ c) = c := by
  unfold octet₂ sextet₂ sextet₃
  refine UInt8.toBitVec_inj.mp ?_
  ext i hi
  simp
  interval_cases i <;> simp

theorem lt_of_and_eq {n : UInt8} (h : n &&& 0x3f = n) : n < 64 := by
  have hle : (n &&& 0x3f).toNat ≤ 0x3f := by
    rw [UInt8.toNat_and]
    exact Nat.and_le_right
  rw [h] at hle
  rw [UInt8.lt_iff_toNat_lt]
  exact Nat.lt_succ_of_le hle

theorem sextet₀_lt : sextet₀ a < 64 := by
  refine lt_of_and_eq ?_
  unfold sextet₀
  refine UInt8.toBitVec_inj.mp ?_
  ext i hi
  simp
  interval_cases i <;> simp

theorem sextet₁_lt : sextet₁ a b < 64 := by
  refine lt_of_and_eq ?_
  unfold sextet₁
  refine UInt8.toBitVec_inj.mp ?_
  ext i hi
  simp
  interval_cases i <;> simp

theorem sextet₂_lt : sextet₂ b c < 64 := by
  refine lt_of_and_eq ?_
  unfold sextet₂
  refine UInt8.toBitVec_inj.mp ?_
  ext i hi
  simp
  interval_cases i <;> simp

theorem sextet₃_lt : sextet₃ c < 64 := by
  refine lt_of_and_eq ?_
  unfold sextet₃
  rw [UInt8.and_assoc, UInt8.and_self]

end Parts

/-! ## The alphabet -/

/-- Every number below 64 has a character of its own, which is not the padding. -/
theorem symbol_spec : ∀ n < 64, value? (symbol (UInt8.ofNat n)) = some (UInt8.ofNat n) ∧
    symbol (UInt8.ofNat n) ≠ pad := by
  decide

theorem value?_symbol {n : UInt8} (h : n < 64) : value? (symbol n) = some n := by
  have hspec := (symbol_spec n.toNat (UInt8.lt_iff_toNat_lt.mp h)).1
  rwa [UInt8.ofNat_toNat] at hspec

theorem symbol_ne_pad {n : UInt8} (h : n < 64) : symbol n ≠ pad := by
  have hspec := (symbol_spec n.toNat (UInt8.lt_iff_toNat_lt.mp h)).2
  rwa [UInt8.ofNat_toNat] at hspec

/-- Is this a character that a written text may have? -/
def isSymbol (b : UInt8) : Bool := b = pad || (value? b).isSome

theorem isSymbol_pad : isSymbol pad = true := by decide

theorem isSymbol_symbol {n : UInt8} (h : n < 64) : isSymbol (symbol n) = true := by
  simp [isSymbol, value?_symbol h]

/-! ## Groups -/

section Groups

variable (a b c : UInt8)

theorem group₂?_symbols :
    group₂? (symbol (sextet₀ a)) (symbol (sextet₁ a 0)) = some [a] := by
  simp [group₂?, value?_symbol (sextet₀_lt a), value?_symbol (sextet₁_lt a 0), octet₀_sextets]

theorem group₃?_symbols :
    group₃? (symbol (sextet₀ a)) (symbol (sextet₁ a b)) (symbol (sextet₂ b 0)) = some [a, b] := by
  simp [group₃?, value?_symbol (sextet₀_lt a), value?_symbol (sextet₁_lt a b),
    value?_symbol (sextet₂_lt b 0), octet₀_sextets, octet₁_sextets]

theorem group₄?_symbols :
    group₄? (symbol (sextet₀ a)) (symbol (sextet₁ a b)) (symbol (sextet₂ b c))
      (symbol (sextet₃ c)) = some [a, b, c] := by
  simp [group₄?, value?_symbol (sextet₀_lt a), value?_symbol (sextet₁_lt a b),
    value?_symbol (sextet₂_lt b c), value?_symbol (sextet₃_lt c), octet₀_sextets,
    octet₁_sextets, octet₂_sextets]

end Groups

/-! ## Whole texts -/

theorem encode_ne_nil {bytes : Bytes} (h : bytes ≠ []) : encode bytes ≠ [] := by
  match bytes, h with
  | [a], _ => exact List.cons_ne_nil _ _
  | [a, b], _ => exact List.cons_ne_nil _ _
  | a :: b :: c :: rest, _ => exact List.cons_ne_nil _ _

/-- A group that others follow is read as a group of four. -/
theorem decode?_cons_of_ne_nil (c₀ c₁ c₂ c₃ : UInt8) {text : Bytes} (h : text ≠ []) :
    decode? (c₀ :: c₁ :: c₂ :: c₃ :: text) = (do
      let first ← group₄? c₀ c₁ c₂ c₃
      let others ← decode? text
      return first ++ others) := by
  obtain ⟨c₄, rest, rfl⟩ := List.exists_cons_of_ne_nil h
  rfl

/-- Reading what was written gives the bytes back. -/
theorem decode?_encode (bytes : Bytes) : decode? (encode bytes) = some bytes := by
  fun_induction encode bytes with
  | case1 => rfl
  | case2 a =>
    show lastGroup? _ = _
    simp [lastGroup?, group₂?_symbols]
  | case3 a b =>
    show lastGroup? _ = _
    simp [lastGroup?, symbol_ne_pad (sextet₂_lt b 0), group₃?_symbols]
  | case4 a b c rest ih =>
    by_cases hrest : rest = []
    · subst hrest
      have hfour : encode [a, b, c] = [symbol (sextet₀ a), symbol (sextet₁ a b),
        symbol (sextet₂ b c), symbol (sextet₃ c)] := rfl
      show lastGroup? (encode [a, b, c]) = _
      rw [hfour, lastGroup?, if_neg (symbol_ne_pad (sextet₃_lt c)), group₄?_symbols]
    · rw [decode?_cons_of_ne_nil _ _ _ _ (encode_ne_nil hrest), group₄?_symbols, ih]
      rfl

theorem isSymbol_of_mem_encode {bytes : Bytes} {b : UInt8} (h : b ∈ encode bytes) :
    isSymbol b = true := by
  fun_induction encode bytes with
  | case1 => exact absurd h List.not_mem_nil
  | case2 a =>
    simp only [List.mem_cons, List.not_mem_nil, or_false] at h
    rcases h with rfl | rfl | rfl | rfl
    · exact isSymbol_symbol (sextet₀_lt a)
    · exact isSymbol_symbol (sextet₁_lt a 0)
    · exact isSymbol_pad
    · exact isSymbol_pad
  | case3 a c =>
    simp only [List.mem_cons, List.not_mem_nil, or_false] at h
    rcases h with rfl | rfl | rfl | rfl
    · exact isSymbol_symbol (sextet₀_lt a)
    · exact isSymbol_symbol (sextet₁_lt a c)
    · exact isSymbol_symbol (sextet₂_lt c 0)
    · exact isSymbol_pad
  | case4 a c d rest ih =>
    simp only [List.mem_cons] at h
    rcases h with rfl | rfl | rfl | rfl | hrest
    · exact isSymbol_symbol (sextet₀_lt a)
    · exact isSymbol_symbol (sextet₁_lt a c)
    · exact isSymbol_symbol (sextet₂_lt c d)
    · exact isSymbol_symbol (sextet₃_lt d)
    · exact ih hrest

/-! ## How much a text writes -/

section Length

variable {c₀ c₁ c₂ c₃ : UInt8} {bytes text : Bytes}

theorem length_of_group₂? (h : group₂? c₀ c₁ = some bytes) : bytes.length = 1 := by
  simp only [group₂?, Option.bind_eq_bind, Option.bind_eq_some_iff] at h
  obtain ⟨_, -, _, -, hbytes⟩ := h
  rw [← Option.some_inj.mp hbytes]
  rfl

theorem length_of_group₃? (h : group₃? c₀ c₁ c₂ = some bytes) : bytes.length = 2 := by
  simp only [group₃?, Option.bind_eq_bind, Option.bind_eq_some_iff] at h
  obtain ⟨_, -, _, -, _, -, hbytes⟩ := h
  rw [← Option.some_inj.mp hbytes]
  rfl

theorem length_of_group₄? (h : group₄? c₀ c₁ c₂ c₃ = some bytes) : bytes.length = 3 := by
  simp only [group₄?, Option.bind_eq_bind, Option.bind_eq_some_iff] at h
  obtain ⟨_, -, _, -, _, -, _, -, hbytes⟩ := h
  rw [← Option.some_inj.mp hbytes]
  rfl

theorem length_le_of_lastGroup? (h : lastGroup? text = some bytes) :
    bytes.length ≤ text.length := by
  unfold lastGroup? at h
  split at h
  · exact (length_of_group₂? h).trans_le (by simp)
  · split at h
    · exact (length_of_group₂? h).trans_le (by simp)
    · exact (length_of_group₃? h).trans_le (by simp)
  · split at h
    · split at h
      · exact (length_of_group₂? h).trans_le (by simp)
      · exact (length_of_group₃? h).trans_le (by simp)
    · exact (length_of_group₄? h).trans_le (by simp)
  · cases h

/-- A text has at least as many characters as it writes bytes. -/
theorem length_le_of_decode? (h : decode? text = some bytes) : bytes.length ≤ text.length := by
  fun_induction decode? text generalizing bytes with
  | case1 => rw [← Option.some_inj.mp h]
  | case2 c₀ c₁ c₂ c₃ c₄ rest ih =>
    simp only [Option.bind_eq_bind, Option.bind_eq_some_iff] at h
    obtain ⟨first, hfirst, others, hothers, hbytes⟩ := h
    have hlength := ih hothers
    rw [← Option.some_inj.mp hbytes, List.length_append, length_of_group₄? hfirst]
    simp only [List.length_cons] at hlength ⊢
    omega
  | case3 last _ _ => exact length_le_of_lastGroup? h

end Length

end Base64
end KeyTable
