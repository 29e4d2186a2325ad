import KeyTable.Bytes.Basic

/-!
# Little-endian numbers

Log frames and the typed values of a table hold numbers of a fixed width, least
significant byte first.  `encode w n` writes the low `8 * w` bits of `n`, and
`decode` reads any number of bytes back.
-/

namespace KeyTable
namespace LittleEndian

/-- The low `width` bytes of a number, least significant byte first. -/
def encode : Nat → Nat → Bytes
  | 0, _ => []
  | width + 1, n => UInt8.ofNat n :: encode width (n / 256)

/-- The number that a byte string writes, least significant byte first. -/
def decode : Bytes → Nat
  | [] => 0
  | b :: rest => b.toNat + 256 * decode rest

@[simp] theorem length_encode (width n : Nat) : (encode width n).length = width := by
  induction width generalizing n with
  | zero => rfl
  | succ w ih => simp [encode, ih]

end LittleEndian
end KeyTable
