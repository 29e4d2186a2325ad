import KeyTable.Proofs.Bytes.LittleEndian
import KeyTable.Proofs.Table.Reachable
import KeyTable.Table.Number

/-!
# Numbers in eight bytes

The values that are numbers are those of eight bytes, and each of them is the number of one
count below `2 ^ 64`.

* `textKey_injective` — texts that differ have keys that differ.
* `readNumber_encode`, `readNumber_of_length_ne` — what is read as a number, and what is not.
* `exists_encode` — every value of eight bytes is the number of a count.
* `readNumber_eq_ok_iff`, `readNumber_eq_error_iff` — so a number is read exactly from its value,
  and from no other width.
* `toInt_ofNat` — counts below `2 ^ 63` are the same with a sign.
* `Table.bump_eq` — a bump looks its counter up, and then stores the next count.
-/

namespace KeyTable

theorem textKey_injective : Function.Injective textKey := by
  intro text other h
  have hbytes : Bytes.ofText text = Bytes.ofText other := List.append_cancel_right h
  have hdata : text.toUTF8.data = other.toUTF8.data := Array.toList_inj.mp hbytes
  exact String.toByteArray_inj.mp (ByteArray.ext hdata)

/-- A count is stored as its number. -/
theorem numberValue_ofNat {n : Nat} (h : n < 2 ^ 64) :
    numberValue (UInt64.ofNat n) = LittleEndian.encode 8 n := by
  rw [numberValue, UInt64.toNat_ofNat_of_lt' h]

/-- And this is read back. -/
theorem readNumber_encode (shape : NumberShape) (n : Nat) :
    readNumber shape (LittleEndian.encode 8 n) = .ok (UInt64.ofNat n) := by
  rw [readNumber, if_pos (LittleEndian.length_encode 8 n), LittleEndian.decode_encode]
  have hmod : UInt64.ofNat (n % 256 ^ 8) = UInt64.ofNat n := by
    rw [← UInt64.toNat_inj, UInt64.toNat_ofNat', UInt64.toNat_ofNat',
      Nat.mod_mod_of_dvd _ (by decide)]
  rw [hmod]

theorem readNumber_of_length_ne {value : Bytes} (h : value.length ≠ 8) (shape : NumberShape) :
    readNumber shape value = .error (.corrupt (.wrongWidth shape value.length)) :=
  if_neg h

/-- Eight bytes are always a number. -/
theorem exists_encode {value : Bytes} (h : value.length = 8) :
    ∃ n < 2 ^ 64, value = LittleEndian.encode 8 n := by
  have hlt := LittleEndian.decode_lt value
  rw [h] at hlt
  refine ⟨LittleEndian.decode value, hlt, LittleEndian.eq_of_decode_eq ?_ ?_⟩
  · rw [h, LittleEndian.length_encode]
  · rw [LittleEndian.decode_encode, Nat.mod_eq_of_lt hlt]

/-- A number is read exactly from the value that is stored for it. -/
theorem readNumber_eq_ok_iff {shape : NumberShape} {value : Bytes} {n : UInt64} :
    readNumber shape value = .ok n ↔ value = numberValue n := by
  constructor
  · intro h
    by_cases hlength : value.length = 8
    · obtain ⟨count, hlt, rfl⟩ := exists_encode hlength
      rw [readNumber_encode, Except.ok.injEq] at h
      rw [← h, numberValue_ofNat hlt]
    · rw [readNumber_of_length_ne hlength] at h
      cases h
  · rintro rfl
    rw [numberValue, readNumber_encode, UInt64.ofNat_toNat]

/-- Any other width is corrupt, and nothing else is. -/
theorem readNumber_eq_error_iff {shape : NumberShape} {value : Bytes} {fault : Fault} :
    readNumber shape value = .error fault ↔
      value.length ≠ 8 ∧ fault = .corrupt (.wrongWidth shape value.length) := by
  by_cases hlength : value.length = 8
  · obtain ⟨count, -, rfl⟩ := exists_encode hlength
    simp [readNumber_encode]
  · rw [readNumber_of_length_ne hlength, Except.error.injEq]
    exact ⟨fun h => ⟨hlength, h.symm⟩, fun h => h.2.symm⟩

/-- Counts below `2 ^ 63` are the same with a sign. -/
theorem toInt_ofNat {n : Nat} (h : n < 2 ^ 63) : (UInt64.ofNat n).toInt64.toInt = n := by
  rw [UInt64.toInt64_ofNat', Int64.toInt_ofNat_of_lt h]

namespace Table

/-- The count that a bump comes to, by what is stored under the key. -/
def nextCount : Option Bytes → Except Fault UInt64
  | some value => (readNumber .counter value).map (· + 1)
  | none => .ok 1

/-- A bump looks its counter up, and stores the next count if there is one. -/
theorem bump_eq {table : Table} (h : table.inMemory.Sound) (disk : Disk) (name : String) :
    table.bump disk name =
      match nextCount (table.inMemory.contents.lookup (textKey name)) with
      | .error fault => ⟨.error fault, (table.fetch (textKey name)).2, disk⟩
      | .ok n =>
        ((table.fetch (textKey name)).2.store disk (textKey name) (.given (numberValue n))).map
          fun _ => n := by
  rw [bump, fetch_eq_found h]
  cases table.inMemory.contents.lookup (textKey name) <;> rfl

end Table
end KeyTable
