import KeyTable.Bytes.LittleEndian
import KeyTable.Checksum

/-!
# Log frames

A log holds the changes of a table in the order in which they were made, each in
a frame of its own:

* four bytes: the CRC-32 of the payload;
* four bytes: the length of the payload;
* the payload: four bytes for the kind of change, then its byte strings, each
  behind eight bytes for its length.

All numbers are little-endian.  `decodeFrame?` accepts a frame only as a whole,
with a matching checksum and a payload that opens with a change.
-/

namespace KeyTable

/-- A change of a table. -/
inductive Change where
  /-- The key was added, or given another value. -/
  | store (key value : Bytes)
  /-- The key was removed. -/
  | delete (key : Bytes)
  deriving Repr, DecidableEq

namespace Log

/-! ## Payloads -/

/-- A byte string behind its length. -/
def field (bytes : Bytes) : Bytes := LittleEndian.encode 8 bytes.length ++ bytes

/-- The payload of a change. -/
def payload : Change → Bytes
  | .store key value => LittleEndian.encode 4 0 ++ field key ++ field value
  | .delete key => LittleEndian.encode 4 1 ++ field key

/-- Takes so many bytes off the front, if there are as many. -/
def takeExactly? (length : Nat) (bytes : Bytes) : Option (Bytes × Bytes) :=
  let taken := bytes.take length
  if taken.length = length then some (taken, bytes.drop length) else none

/-- Takes a byte string behind its length off the front. -/
def takeField? (bytes : Bytes) : Option (Bytes × Bytes) := do
  let (length, rest) ← takeExactly? 8 bytes
  takeExactly? (LittleEndian.decode length) rest

/-- The change that a payload opens with.  Bytes behind it are ignored. -/
def decodePayload? (bytes : Bytes) : Option Change := do
  let (kind, rest) ← takeExactly? 4 bytes
  match LittleEndian.decode kind with
  | 0 =>
    let (key, rest) ← takeField? rest
    let (value, _) ← takeField? rest
    return .store key value
  | 1 =>
    let (key, _) ← takeField? rest
    return .delete key
  | _ => none

/-! ## Frames -/

/-- Number of bytes in front of a payload. -/
def frameHeaderSize : Nat := 8

/-- The frame around a payload. -/
def frameOf (payload : Bytes) : Bytes :=
  LittleEndian.encode 4 (crc32 payload).toNat ++ LittleEndian.encode 4 payload.length ++ payload

/-- The frame of a change. -/
def encodeFrame (change : Change) : Bytes := frameOf (payload change)

/-- Takes the frame of a change off the front, if an intact one is there. -/
def decodeFrame? (bytes : Bytes) : Option (Change × Bytes) := do
  let (checksum, rest) ← takeExactly? 4 bytes
  let (length, rest) ← takeExactly? 4 rest
  let (payload, rest) ← takeExactly? (LittleEndian.decode length) rest
  if (crc32 payload).toNat = LittleEndian.decode checksum then
    let change ← decodePayload? payload
    return (change, rest)
  else none

theorem length_of_takeExactly? {n : Nat} {bytes taken rest : Bytes}
    (h : takeExactly? n bytes = some (taken, rest)) :
    taken.length = n ∧ bytes.length = n + rest.length := by
  simp only [takeExactly?] at h
  split at h
  · next hlength =>
    cases h
    rw [List.length_take] at hlength
    simp only [List.length_take, List.length_drop]
    omega
  · cases h

/-- A frame is never empty. -/
theorem length_of_decodeFrame? {bytes rest : Bytes} {change : Change}
    (h : decodeFrame? bytes = some (change, rest)) :
    frameHeaderSize + rest.length ≤ bytes.length := by
  simp only [decodeFrame?, Option.bind_eq_bind, Option.bind_eq_some_iff, Prod.exists] at h
  obtain ⟨checksum, r₁, h₁, length, r₂, h₂, payload, r₃, h₃, h⟩ := h
  have hrest : r₃ = rest := by
    split at h
    · simp only [Option.bind_eq_some_iff] at h
      obtain ⟨c, -, hc⟩ := h
      cases hc
      rfl
    · cases h
  have e₁ := length_of_takeExactly? h₁
  have e₂ := length_of_takeExactly? h₂
  have e₃ := length_of_takeExactly? h₃
  subst hrest
  simp only [frameHeaderSize]
  omega

end Log

end KeyTable
