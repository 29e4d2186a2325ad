import KeyTable.Bytes.Basic

/-!
# ASCII characters with a meaning

The bytes that the dump format gives a meaning to, the classes of bytes that
count as readable text, and the digits of hexadecimal numbers.
-/

namespace KeyTable
namespace Ascii

/-! ## Named bytes -/

/-- The zero byte, which ends every well-formed key and every text value. -/
def nul : UInt8 := 0x00

/-- The byte that ends a line. -/
def newline : UInt8 := 0x0a

/-- The space. -/
def space : UInt8 := 0x20

/-- `%`, which opens an escaped byte of a key. -/
def percent : UInt8 := 0x25

/-- `&`, at which an escaped key ends. -/
def ampersand : UInt8 := 0x26

/-- `+`, the written form of a space inside a key. -/
def plus : UInt8 := 0x2b

/-- `=`, at which an escaped key ends, and the padding of base64. -/
def equalsSign : UInt8 := 0x3d

/-- `@`, which opens a header line. -/
def atSign : UInt8 := 0x40

/-! ## Classes of bytes -/

/-- A graphic ASCII character or the space. -/
def isPrintable (b : UInt8) : Bool := 0x20 ≤ b && b ≤ 0x7e

/-- ASCII whitespace: space, tab, line feed, vertical tab, form feed and
carriage return. -/
def isBlank (b : UInt8) : Bool := b == 0x20 || (0x09 ≤ b && b ≤ 0x0d)

/-- A byte that a readable text may hold. -/
def isReadable (b : UInt8) : Bool := isPrintable b || isBlank b

/-! ## Hexadecimal digits -/

/-- The lower-case hexadecimal digit of a number below sixteen. -/
def hexDigit (n : UInt8) : UInt8 := if n < 10 then 0x30 + n else 0x57 + n

/-- The number that a hexadecimal digit of either case stands for. -/
def hexValue? (b : UInt8) : Option UInt8 :=
  if 0x30 ≤ b && b ≤ 0x39 then some (b - 0x30)
  else if 0x61 ≤ b && b ≤ 0x66 then some (b - 0x57)
  else if 0x41 ≤ b && b ≤ 0x46 then some (b - 0x37)
  else none

/-- The two lower-case hexadecimal digits of a byte, high half first. -/
def hexPair (b : UInt8) : Bytes := [hexDigit (b >>> 4), hexDigit (b &&& 0x0f)]

end Ascii

namespace Bytes

/-- The lower-case hexadecimal text of a byte string. -/
def toHex (bytes : Bytes) : String :=
  bytes.foldl
    (fun text b => (Ascii.hexPair b).foldl (fun s d => s.push (Char.ofNat d.toNat)) text) ""

end Bytes

end KeyTable
