import KeyTable.Bytes.Basic

/-!
# CRC-32

The cyclic redundancy check with the reflected IEEE polynomial.  It serves two
purposes: it places a key in a bucket, and it guards the payload of a log frame.
The register is shifted one bit at a time; a bit that falls out at the low end
feeds the polynomial back in.
-/

namespace KeyTable
namespace Crc32

/-- The IEEE polynomial, lowest power in the highest bit. -/
def polynomial : UInt32 := 0xedb88320

/-- Shifts the register by one bit. -/
def shift (register : UInt32) : UInt32 :=
  if register &&& 1 = 1 then (register >>> 1) ^^^ polynomial else register >>> 1

/-- Takes one byte into the register. -/
def feed (register : UInt32) (b : UInt8) : UInt32 :=
  shift (shift (shift (shift (shift (shift (shift (shift (register ^^^ b.toUInt32))))))))

end Crc32

/-- The CRC-32 of a byte string: the register starts with all bits set, and is
inverted at the end. -/
def crc32 (bytes : Bytes) : UInt32 := ~~~ bytes.foldl Crc32.feed 0xffffffff

/-- The check value of the standard: the checksum of the digits one to nine. -/
example : crc32 [0x31, 0x32, 0x33, 0x34, 0x35, 0x36, 0x37, 0x38, 0x39] = 0xcbf43926 := by decide +kernel

end KeyTable
