import KeyTable.Dump.Line

/-!
# Keys survive their header

A key is written escaped behind an `@`, possibly with the base64 tag behind it.

* `unescape_escapeKey`, `badEscapes_escapeKey` — unescaping gives back any key, whatever
  bytes it has, and finds no fault with it.
* `isReserved_of_mem_escapeKey`, `exists_escapeKey_eq_cons` — an escaped key has no byte that
  would end it, and does not open with an `@`.
* `ofBytes_header`, `ofBytes_taggedHeader` — so its header is read as what it is,
  with the tag exactly if it was written with it.
* `unescapeKey_of_isGoodKey` — a key that a dump can hold comes back with the zero
  byte that ends it.
-/

namespace KeyTable
namespace Dump

/-! ## Escaped bytes -/

/-- Does a byte end a key in a header?  A bare `&` or `=` does, the space in front of the tag,
and the newline behind the header. -/
def isReserved (b : UInt8) : Bool := endsKey b || b == Ascii.space || b == Ascii.newline

theorem isReserved_eq_false_iff {b : UInt8} :
    isReserved b = false ↔
      b ≠ Ascii.ampersand ∧ b ≠ Ascii.equalsSign ∧ b ≠ Ascii.space ∧ b ≠ Ascii.newline := by
  simp only [isReserved, endsKey, Bool.or_eq_false_iff, beq_eq_false_iff_ne, and_assoc]

/-- Two digits write the byte that they were made from, and none of them ends a key. -/
theorem hexPair_spec : ∀ n < 256,
    hexByte? (Ascii.hexDigit (UInt8.ofNat n >>> 4)) (Ascii.hexDigit (UInt8.ofNat n &&& 0x0f)) =
        some (UInt8.ofNat n) ∧
      (Ascii.hexPair (UInt8.ofNat n)).all (!isReserved ·) := by
  decide +kernel

theorem hexByte?_hexDigits (b : UInt8) :
    hexByte? (Ascii.hexDigit (b >>> 4)) (Ascii.hexDigit (b &&& 0x0f)) = some b := by
  have hspec := (hexPair_spec b.toNat b.toNat_lt).1
  rwa [UInt8.ofNat_toNat] at hspec

theorem isReserved_of_mem_hexPair {b digit : UInt8} (h : digit ∈ Ascii.hexPair b) :
    isReserved digit = false := by
  have hspec := (hexPair_spec b.toNat b.toNat_lt).2
  rw [UInt8.ofNat_toNat, List.all_eq_true] at hspec
  simpa using hspec digit h

theorem unescape_escape (b : UInt8) (text : Bytes) :
    unescape (escape b ++ text) = b :: unescape text := by
  show unescape
    (Ascii.percent :: Ascii.hexDigit (b >>> 4) :: Ascii.hexDigit (b &&& 0x0f) :: text) = _
  rw [unescape.eq_def]
  simp only [hexByte?_hexDigits]
  rw [if_neg (by decide), if_pos trivial]

/-- A byte that stands for itself. -/
theorem unescape_plain {b : UInt8} (hends : endsKey b = false) (hpercent : b ≠ Ascii.percent)
    (text : Bytes) : unescape (b :: text) = plainByte b :: unescape text := by
  rw [unescape.eq_def]
  simp only [hends, Bool.false_eq_true, if_false, if_neg hpercent]

/-- A byte is written as it is only if it means nothing to a reader. -/
theorem escapeByte_cases (b : UInt8) :
    (b = Ascii.space ∧ escapeByte b = [Ascii.plus]) ∨ escapeByte b = escape b ∨
      (escapeByte b = [b] ∧ isReserved b = false ∧ endsKey b = false ∧ b ≠ Ascii.percent ∧
        b ≠ Ascii.plus) := by
  unfold escapeByte
  split
  · next hspace => exact .inl ⟨hspace, rfl⟩
  · next hspace =>
    split
    · exact .inr (.inl rfl)
    · next hspecial =>
      simp only [Bool.or_eq_true, decide_eq_true_eq, not_or] at hspecial
      obtain ⟨⟨⟨⟨hpercent, hplus⟩, hampersand⟩, hequals⟩, hnewline⟩ := hspecial
      have hfree := isReserved_eq_false_iff.mpr ⟨hampersand, hequals, hspace, hnewline⟩
      have hends : endsKey b = false := by simp [endsKey, hampersand, hequals]
      exact .inr (.inr ⟨rfl, hfree, hends, hpercent, hplus⟩)

theorem unescape_escapeByte (b : UInt8) (text : Bytes) :
    unescape (escapeByte b ++ text) = b :: unescape text := by
  rcases escapeByte_cases b with ⟨rfl, hform⟩ | hform | ⟨hform, -, hends, hpercent, hplus⟩ <;>
    rw [hform]
  · rw [List.singleton_append, unescape_plain (by decide) (by decide)]
    rfl
  · exact unescape_escape b text
  · rw [List.singleton_append, unescape_plain hends hpercent, plainByte, if_neg hplus]

theorem unescape_flatMap_escapeByte (key : Bytes) : unescape (key.flatMap escapeByte) = key := by
  induction key with
  | nil => rfl
  | cons b key ih => rw [List.flatMap_cons, unescape_escapeByte, ih]

/-- Unescaping gives back any key. -/
theorem unescape_escapeKey (key : Bytes) : unescape (escapeKey key) = key := by
  cases key with
  | nil => rfl
  | cons b key =>
    rw [escapeKey]
    split
    · rw [unescape_escape, unescape_flatMap_escapeByte]
    · rw [unescape_escapeByte, unescape_flatMap_escapeByte]

/-! ## Escapes that are none -/

theorem badEscapes_escape (b : UInt8) (text : Bytes) (offset : Nat) :
    badEscapes offset (escape b ++ text) = badEscapes (offset + 3) text := by
  show badEscapes offset
    (Ascii.percent :: Ascii.hexDigit (b >>> 4) :: Ascii.hexDigit (b &&& 0x0f) :: text) = _
  rw [badEscapes.eq_def]
  simp only [hexByte?_hexDigits]
  rw [if_neg (by decide), if_pos trivial]

theorem badEscapes_plain {b : UInt8} (hends : endsKey b = false) (hpercent : b ≠ Ascii.percent)
    (text : Bytes) (offset : Nat) :
    badEscapes offset (b :: text) = badEscapes (offset + 1) text := by
  rw [badEscapes.eq_def]
  simp only [hends, Bool.false_eq_true, if_false, if_neg hpercent]

theorem badEscapes_escapeByte (b : UInt8) (text : Bytes) (offset : Nat) :
    badEscapes offset (escapeByte b ++ text) =
      badEscapes (offset + (escapeByte b).length) text := by
  rcases escapeByte_cases b with ⟨-, hform⟩ | hform | ⟨hform, -, hends, hpercent, -⟩ <;> rw [hform]
  · exact badEscapes_plain (by decide) (by decide) text offset
  · exact badEscapes_escape b text offset
  · exact badEscapes_plain hends hpercent text offset

theorem badEscapes_flatMap_escapeByte (key : Bytes) (offset : Nat) :
    badEscapes offset (key.flatMap escapeByte) = [] := by
  induction key generalizing offset with
  | nil => rfl
  | cons b key ih => rw [List.flatMap_cons, badEscapes_escapeByte, ih]

/-- An escaped key has no percent sign that opens no escape. -/
theorem badEscapes_escapeKey (key : Bytes) (offset : Nat) :
    badEscapes offset (escapeKey key) = [] := by
  cases key with
  | nil => rfl
  | cons b key =>
    rw [escapeKey]
    split
    · rw [badEscapes_escape, badEscapes_flatMap_escapeByte]
    · rw [badEscapes_escapeByte, badEscapes_flatMap_escapeByte]

/-! ## What an escaped key is free of -/

theorem isReserved_of_mem_escape {b c : UInt8} (h : c ∈ escape b) : isReserved c = false := by
  rcases List.mem_cons.mp h with rfl | hdigit
  · decide
  · exact isReserved_of_mem_hexPair hdigit

theorem isReserved_of_mem_escapeByte {b c : UInt8} (h : c ∈ escapeByte b) :
    isReserved c = false := by
  rcases escapeByte_cases b with ⟨-, hform⟩ | hform | ⟨hform, hfree, -⟩ <;> rw [hform] at h
  · rw [List.mem_singleton.mp h]
    decide
  · exact isReserved_of_mem_escape h
  · rw [List.mem_singleton.mp h]
    exact hfree

/-- An escaped key has no byte that ends a key. -/
theorem isReserved_of_mem_escapeKey {key : Bytes} {c : UInt8} (h : c ∈ escapeKey key) :
    isReserved c = false := by
  cases key with
  | nil => exact absurd h List.not_mem_nil
  | cons b key =>
    rcases List.mem_append.mp h with hfirst | hrest
    · split at hfirst
      · exact isReserved_of_mem_escape hfirst
      · exact isReserved_of_mem_escapeByte hfirst
    · obtain ⟨other, -, hmem⟩ := List.mem_flatMap.mp hrest
      exact isReserved_of_mem_escapeByte hmem

theorem space_notMem_escapeKey (key : Bytes) : Ascii.space ∉ escapeKey key :=
  fun h => absurd (isReserved_of_mem_escapeKey h) (by decide)

theorem newline_notMem_escapeKey (key : Bytes) : Ascii.newline ∉ escapeKey key :=
  fun h => absurd (isReserved_of_mem_escapeKey h) (by decide)

/-- An escaped key opens with something else than an `@`. -/
theorem exists_escapeKey_eq_cons {key : Bytes} (h : key ≠ []) :
    ∃ c rest, escapeKey key = c :: rest ∧ c ≠ Ascii.atSign := by
  obtain ⟨b, key, rfl⟩ := List.exists_cons_of_ne_nil h
  rw [escapeKey]
  by_cases hat : b = Ascii.atSign
  · rw [if_pos hat]
    exact ⟨Ascii.percent, _, rfl, by decide⟩
  · rw [if_neg hat]
    rcases escapeByte_cases b with ⟨-, hform⟩ | hform | ⟨hform, -⟩ <;> rw [hform]
    · exact ⟨Ascii.plus, _, rfl, by decide⟩
    · exact ⟨Ascii.percent, _, rfl, by decide⟩
    · exact ⟨b, _, rfl, hat⟩

/-! ## Header lines -/

/-- A text without a space does not end in the tag. -/
theorem isSuffixOf_base64Tag_eq_false {text : Bytes} (h : Ascii.space ∉ text) :
    base64Tag.isSuffixOf text = false := by
  rw [Bool.eq_false_iff]
  intro hsuffix
  exact h ((List.isSuffixOf_iff_suffix.mp hsuffix).subset (by decide))

theorem ofHeader_of_space_notMem {text : Bytes} (h : Ascii.space ∉ text) :
    Line.ofHeader text = .header text false := by
  rw [Line.ofHeader, isSuffixOf_base64Tag_eq_false h, Bool.and_false]
  rfl

theorem ofHeader_append_base64Tag {text : Bytes} (h : text ≠ []) :
    Line.ofHeader (text ++ base64Tag) = .header text true := by
  have hlength := List.length_pos_iff.mpr h
  have hlt : base64Tag.length < (text ++ base64Tag).length := by
    rw [List.length_append]
    omega
  have hsuffix : base64Tag.isSuffixOf (text ++ base64Tag) = true :=
    List.isSuffixOf_iff_suffix.mpr (List.suffix_append text base64Tag)
  rw [Line.ofHeader, hsuffix, decide_eq_true hlt]
  simp

/-- A line behind an `@` that opens with no other is a header. -/
theorem ofBytes_atSign_cons {c : UInt8} (h : c ≠ Ascii.atSign) (rest : Bytes) :
    Line.ofBytes (Ascii.atSign :: c :: rest) = Line.ofHeader (c :: rest) := by
  rw [Line.ofBytes, if_pos rfl, if_neg h]

theorem ofBytes_header {key : Bytes} (h : key ≠ []) :
    Line.ofBytes (Ascii.atSign :: escapeKey key) = .header (escapeKey key) false := by
  obtain ⟨c, rest, hcons, hat⟩ := exists_escapeKey_eq_cons h
  rw [hcons, ofBytes_atSign_cons hat, ← hcons]
  exact ofHeader_of_space_notMem (space_notMem_escapeKey key)

theorem ofBytes_taggedHeader {key : Bytes} (h : key ≠ []) :
    Line.ofBytes (Ascii.atSign :: (escapeKey key ++ base64Tag)) =
      .header (escapeKey key) true := by
  obtain ⟨c, rest, hcons, hat⟩ := exists_escapeKey_eq_cons h
  rw [hcons, List.cons_append, ofBytes_atSign_cons hat, ← List.cons_append]
  exact ofHeader_append_base64Tag (List.cons_ne_nil c rest)

/-! ## Keys that a dump can hold -/

theorem dropLast_append_of_getLast? {bytes : Bytes} {b : UInt8} (h : bytes.getLast? = some b) :
    bytes.dropLast ++ [b] = bytes := by
  obtain ⟨front, rfl⟩ := List.getLast?_eq_some_iff.mp h
  rw [List.dropLast_concat]

/-- Such a key is its text and a zero byte. -/
theorem dropNul_append_of_isGoodKey {key : Bytes} (h : isGoodKey key = true) :
    key.dropNul ++ [Ascii.nul] = key := by
  simp only [isGoodKey, Bool.and_eq_true, beq_iff_eq] at h
  have hlast : key.getLast? = some 0 := h.1
  rw [Bytes.dropNul, if_pos hlast]
  exact dropLast_append_of_getLast? hlast

/-- Its header gives it back. -/
theorem unescapeKey_of_isGoodKey {key : Bytes} (h : isGoodKey key = true) :
    unescapeKey (escapeKey key.dropNul) = key := by
  rw [unescapeKey, unescape_escapeKey, dropNul_append_of_isGoodKey h]

theorem dropNul_ne_nil {key : Bytes} (h : isGoodKey key = true) (hne : key ≠ emptyKey) :
    key.dropNul ≠ [] := by
  intro hnil
  have hkey := dropNul_append_of_isGoodKey h
  rw [hnil] at hkey
  exact hne hkey.symm

end Dump
end KeyTable
