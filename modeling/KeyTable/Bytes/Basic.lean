/-!
# Byte strings

Keys, values, dumps and logs are all byte strings.  A byte string is a list of
bytes, so that functions on it can be defined by structural recursion.  Besides
the type, this file has the two operations that change a stretch of bytes in
place: `resize` and `overwrite`.
-/

namespace KeyTable

/-- A byte string. -/
abbrev Bytes := List UInt8

namespace Bytes

/-- The bytes of a text, in UTF-8. -/
def ofText (text : String) : Bytes := text.toUTF8.data.toList

/-- As many zero bytes. -/
def zeros (length : Nat) : Bytes := List.replicate length 0

/-- Drops one trailing zero byte, if there is one. -/
def dropNul (bytes : Bytes) : Bytes :=
  if bytes.getLast? = some 0 then bytes.dropLast else bytes

/-- Cuts a byte string to a length, or fills it up with zero bytes. -/
def resize (bytes : Bytes) (length : Nat) : Bytes :=
  bytes.take length ++ zeros (length - bytes.length)

/-- Puts `fresh` in place of the bytes from `offset` on.  Bytes behind it stay;
a gap in front of it is filled with zero bytes. -/
def overwrite (bytes : Bytes) (offset : Nat) (fresh : Bytes) : Bytes :=
  bytes.resize offset ++ fresh ++ bytes.drop (offset + fresh.length)

@[simp] theorem length_resize (bytes : Bytes) (length : Nat) :
    (bytes.resize length).length = length := by
  simp only [resize, zeros, List.length_append, List.length_take, List.length_replicate]
  omega

/-- A byte string has its own length already. -/
@[simp] theorem resize_length (bytes : Bytes) : bytes.resize bytes.length = bytes := by
  simp [resize, zeros]

theorem resize_of_le {bytes : Bytes} {length : Nat} (h : length ≤ bytes.length) :
    bytes.resize length = bytes.take length := by
  rw [resize, Nat.sub_eq_zero_of_le h, zeros, List.replicate_zero, List.append_nil]

/-- To overwrite what is behind the end is to append. -/
theorem overwrite_length (bytes fresh : Bytes) :
    bytes.overwrite bytes.length fresh = bytes ++ fresh := by
  simp [overwrite, List.drop_eq_nil_of_le]

@[simp] theorem length_zeros (length : Nat) : (zeros length).length = length :=
  List.length_replicate

/-- Overwriting inside a byte string keeps its length. -/
theorem length_overwrite {bytes fresh : Bytes} {offset : Nat}
    (h : offset + fresh.length ≤ bytes.length) :
    (bytes.overwrite offset fresh).length = bytes.length := by
  simp only [overwrite, List.length_append, length_resize, List.length_drop]
  omega

/-- Overwriting keeps the bytes in front of it. -/
theorem take_overwrite {bytes fresh : Bytes} {count offset : Nat} (hcount : count ≤ offset)
    (hlength : count ≤ bytes.length) :
    (bytes.overwrite offset fresh).take count = bytes.take count := by
  have hresize : count ≤ (bytes.resize offset ++ fresh).length := by
    rw [List.length_append, length_resize]
    omega
  rw [overwrite, List.take_append_of_le_length hresize,
    List.take_append_of_le_length (by rw [length_resize]; exact hcount), resize,
    List.take_append_of_le_length (by rw [List.length_take]; omega), List.take_take,
    Nat.min_eq_left hcount]

/-- The fresh bytes of an overwritten byte string, and what is behind them. -/
theorem drop_overwrite (bytes fresh : Bytes) (offset : Nat) :
    (bytes.overwrite offset fresh).drop offset = fresh ++ bytes.drop (offset + fresh.length) := by
  rw [overwrite, List.append_assoc,
    List.drop_append_of_le_length (Nat.le_of_eq (length_resize bytes offset).symm),
    List.drop_eq_nil_of_le (Nat.le_of_eq (length_resize bytes offset)), List.nil_append]

end Bytes

end KeyTable
