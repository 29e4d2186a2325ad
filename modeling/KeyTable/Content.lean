import KeyTable.Bytes.Basic

/-!
# Content

What a caller hands over to be stored under a key: bytes, or the wish for a
number of zero bytes that are to be filled in later.
-/

namespace KeyTable

/-- What is to be stored under a key. -/
inductive Content where
  /-- These bytes. -/
  | given (bytes : Bytes)
  /-- This many zero bytes. -/
  | zeroed (length : Nat)
  deriving Repr, DecidableEq

namespace Content

/-- The number of bytes. -/
def length : Content → Nat
  | .given bytes => bytes.length
  | .zeroed length => length

/-- Is there nothing to store? -/
def isEmpty (content : Content) : Bool := content.length == 0

/-- The bytes themselves. -/
def toBytes : Content → Bytes
  | .given bytes => bytes
  | .zeroed length => Bytes.zeros length

@[simp] theorem length_toBytes (content : Content) : content.toBytes.length = content.length := by
  cases content <;> simp [toBytes, length, Bytes.zeros]

end Content

end KeyTable
