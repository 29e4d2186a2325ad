import KeyTable.Text.Utf8

/-!
# Texts and their bytes

The bytes of a text are the encodings of its characters, one behind the other.  Reading bytes
as UTF-8 gives a text back exactly from its bytes; of any other bytes it says where the first
flaw is.

* `firstChar?_append`, `eq_append_of_firstChar?` — what opens with the encoding of a character,
  and nothing else, is read as the character.
* `decode_eq_ok_iff` — a text is read from its bytes and from no others.
* `Flawed`, `flawed_of_decode` — a flaw is where no character begins behind the bytes of a text.
* `exists_flaw_iff` — what is no text has a flaw.
-/

namespace KeyTable
namespace Utf8

/-- The encodings of characters, one behind the other. -/
def encode (chars : List Char) : Bytes := chars.flatMap String.utf8EncodeChar

theorem encode_cons (c : Char) (chars : List Char) :
    encode (c :: chars) = String.utf8EncodeChar c ++ encode chars :=
  List.flatMap_cons

/-- The bytes of a text are the encodings of its characters. -/
theorem ofText_ofList (chars : List Char) : Bytes.ofText (String.ofList chars) = encode chars := by
  rw [Bytes.ofText, String.toUTF8_eq_toByteArray, String.toByteArray_ofList, List.utf8Encode,
    List.data_toByteArray, encode]

/-! ## One character -/

theorem firstChar?_eq (bytes : Bytes) :
    firstChar? bytes = (bytes.take 4).toByteArray.utf8DecodeChar? 0 :=
  congrArg (ByteArray.utf8DecodeChar? · 0) (ByteArray.ext List.data_toByteArray.symm)

/-- Bytes that open with the encoding of a character are read as that. -/
theorem firstChar?_append (c : Char) (rest : Bytes) :
    firstChar? (String.utf8EncodeChar c ++ rest) = some c := by
  have hlength := c.utf8Size_le_four
  rw [← String.length_utf8EncodeChar] at hlength
  rw [firstChar?_eq, List.take_append, List.take_of_length_le hlength, List.toByteArray_append,
    ByteArray.utf8DecodeChar?_utf8EncodeChar_append]

/-- Bytes that are read as a character open with its encoding. -/
theorem eq_append_of_firstChar? {bytes : Bytes} {c : Char} (h : firstChar? bytes = some c) :
    bytes = String.utf8EncodeChar c ++ bytes.drop c.utf8Size := by
  rw [firstChar?_eq] at h
  obtain ⟨behind, hbehind⟩ := ByteArray.exists_of_utf8DecodeChar?_eq_some h
  have htake : bytes.take 4 = String.utf8EncodeChar c ++ behind.data.toList := by
    simpa using congrArg (fun array : ByteArray => array.data.toList) hbehind
  have hbytes : bytes = String.utf8EncodeChar c ++ (behind.data.toList ++ bytes.drop 4) := by
    rw [← List.append_assoc, ← htake, List.take_append_drop]
  have hdrop := congrArg (List.drop c.utf8Size) hbytes
  rw [List.drop_left' (String.length_utf8EncodeChar c)] at hdrop
  rw [hdrop]
  exact hbytes

/-- What is left behind a character that takes the first byte along. -/
theorem drop_cons_utf8Size (b : UInt8) (rest : Bytes) (c : Char) :
    (b :: rest).drop c.utf8Size = rest.drop (c.utf8Size - 1) := by
  obtain ⟨size, hsize⟩ := Nat.exists_eq_add_of_lt c.utf8Size_pos
  rw [hsize, Nat.zero_add, List.drop_succ_cons, Nat.add_sub_cancel]

/-- Where no character is read, none begins. -/
theorem firstChar?_eq_none_iff (bytes : Bytes) :
    firstChar? bytes = none ↔ ∀ c, ¬ String.utf8EncodeChar c <+: bytes := by
  constructor
  · rintro hnone c ⟨rest, rfl⟩
    rw [firstChar?_append] at hnone
    cases hnone
  · intro hnever
    cases hfirst : firstChar? bytes with
    | none => rfl
    | some c => exact absurd ⟨_, (eq_append_of_firstChar? hfirst).symm⟩ (hnever c)

/-! ## Texts -/

/-- One step of reading. -/
theorem decodeFrom_append (offset : Nat) (c : Char) (rest : Bytes) :
    decodeFrom offset (String.utf8EncodeChar c ++ rest) =
      (decodeFrom (offset + c.utf8Size) rest).map (c :: ·) := by
  obtain ⟨first, others, hcons⟩ := List.exists_cons_of_ne_nil (@String.utf8EncodeChar_ne_nil c)
  have hlength := String.length_utf8EncodeChar c
  rw [hcons, List.length_cons] at hlength
  have hfirst := firstChar?_append c rest
  rw [hcons, List.cons_append] at hfirst ⊢
  rw [decodeFrom, hfirst]
  simp only [List.drop_left' (show others.length = c.utf8Size - 1 by omega)]
  cases decodeFrom (offset + c.utf8Size) rest <;> rfl

/-- Characters are read back from their encodings. -/
theorem decodeFrom_encode (offset : Nat) (chars : List Char) :
    decodeFrom offset (encode chars) = .ok chars := by
  induction chars generalizing offset with
  | nil => rw [encode, List.flatMap_nil, decodeFrom]
  | cons c chars ih =>
    rw [encode_cons, decodeFrom_append, ih]
    rfl

/-- Whatever is read as characters is their encodings. -/
theorem eq_encode_of_decodeFrom {offset : Nat} {bytes : Bytes} {chars : List Char}
    (h : decodeFrom offset bytes = .ok chars) : bytes = encode chars := by
  fun_induction decodeFrom offset bytes generalizing chars with
  | case1 offset =>
    cases h
    rfl
  | case2 offset b rest hnone => cases h
  | case3 offset b rest c hfirst flaw herror ih => cases h
  | case4 offset b rest c hfirst others hothers ih =>
    cases h
    have hsplit := eq_append_of_firstChar? hfirst
    rw [drop_cons_utf8Size, ih hothers] at hsplit
    exact hsplit

/-- Where reading stops, the bytes behind some encodings do not open with a character. -/
theorem exists_of_decodeFrom_error {offset : Nat} {bytes : Bytes} {flaw : Flaw}
    (h : decodeFrom offset bytes = .error flaw) :
    ∃ chars rest, bytes = encode chars ++ rest ∧ rest ≠ [] ∧ firstChar? rest = none ∧
      flaw = ⟨offset + (encode chars).length, flawWidth? rest⟩ := by
  fun_induction decodeFrom offset bytes with
  | case1 offset => cases h
  | case2 offset b rest hnone =>
    cases h
    exact ⟨[], b :: rest, rfl, List.cons_ne_nil _ _, hnone, rfl⟩
  | case3 offset b rest c hfirst flaw herror ih =>
    cases h
    obtain ⟨chars, behind, hrest, hne, hnone, rfl⟩ := ih herror
    have hsplit := eq_append_of_firstChar? hfirst
    rw [drop_cons_utf8Size, hrest, ← List.append_assoc] at hsplit
    refine ⟨c :: chars, behind, hsplit, hne, hnone, ?_⟩
    rw [encode_cons, List.length_append, String.length_utf8EncodeChar, Nat.add_assoc]
  | case4 offset b rest c hfirst others hothers ih => cases h

/-- Reading bytes gives a text back exactly from its bytes. -/
theorem decode_eq_ok_iff {bytes : Bytes} {text : String} :
    decode bytes = .ok text ↔ bytes = Bytes.ofText text := by
  obtain ⟨chars, rfl⟩ : ∃ chars, text = String.ofList chars :=
    ⟨text.toList, String.ofList_toList.symm⟩
  rw [ofText_ofList, decode]
  constructor
  · intro h
    cases hread : decodeFrom 0 bytes with
    | error flaw =>
      rw [hread] at h
      cases h
    | ok others =>
      rw [hread] at h
      have hsame : others = chars := String.ofList_injective (Except.ok.inj h)
      rw [← hsame]
      exact eq_encode_of_decodeFrom hread
  · rintro rfl
    rw [decodeFrom_encode]
    rfl

/-- The flaw of bytes that are no text: behind the bytes of a text, there are others that no
character begins. -/
structure Flawed (bytes : Bytes) (flaw : Flaw) : Prop where
  /-- In front of the flaw there is a text. -/
  offset : ∃ text, bytes.take flaw.offset = Bytes.ofText text
  /-- The flaw is inside the bytes. -/
  lt : flaw.offset < bytes.length
  /-- No character begins there. -/
  noChar : ∀ c, ¬ String.utf8EncodeChar c <+: bytes.drop flaw.offset
  /-- It is as wide as those bytes say. -/
  width : flaw.width = flawWidth? (bytes.drop flaw.offset)

theorem flawed_of_decode {bytes : Bytes} {flaw : Flaw} (h : decode bytes = .error flaw) :
    Flawed bytes flaw := by
  have hread : decodeFrom 0 bytes = .error flaw := by
    rw [decode] at h
    cases hread : decodeFrom 0 bytes with
    | error other =>
      rw [hread] at h
      rw [Except.error.inj h]
    | ok chars =>
      rw [hread] at h
      cases h
  obtain ⟨chars, rest, rfl, hne, hnone, rfl⟩ := exists_of_decodeFrom_error hread
  refine ⟨⟨String.ofList chars, ?_⟩, ?_, ?_, ?_⟩
  · simp [ofText_ofList]
  · simpa using List.length_pos_iff.mpr hne
  · simpa using (firstChar?_eq_none_iff rest).mp hnone
  · simp

/-- Bytes that are no text have a flaw. -/
theorem exists_flaw_iff {bytes : Bytes} :
    (∃ flaw, decode bytes = .error flaw) ↔ ∀ text, bytes ≠ Bytes.ofText text := by
  constructor
  · rintro ⟨flaw, hflaw⟩ text hbytes
    rw [decode_eq_ok_iff.mpr hbytes] at hflaw
    cases hflaw
  · intro hno
    cases hread : decode bytes with
    | error flaw => exact ⟨flaw, rfl⟩
    | ok text => exact absurd (decode_eq_ok_iff.mp hread) (hno text)

end Utf8
end KeyTable
