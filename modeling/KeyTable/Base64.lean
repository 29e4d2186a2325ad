import KeyTable.Bytes.Ascii

/-!
# Base64

The standard alphabet, written with padding and read with or without it.

`encode` turns three bytes into four characters and pads the last group with
`=`.  `decode?` accepts the last group in full, cut short, or padded, as long as
it holds at least two characters of the alphabet, and ignores the bits of a last
character that no byte needs.  All earlier groups must be full.
-/

namespace KeyTable
namespace Base64

/-! ## The alphabet -/

/-- The character of a six-bit number. -/
def symbol (n : UInt8) : UInt8 :=
  if n < 26 then 0x41 + n
  else if n < 52 then 0x61 + (n - 26)
  else if n < 62 then 0x30 + (n - 52)
  else if n = 62 then 0x2b
  else 0x2f

/-- The six-bit number of a character of the alphabet. -/
def value? (c : UInt8) : Option UInt8 :=
  if 0x41 ≤ c && c ≤ 0x5a then some (c - 0x41)
  else if 0x61 ≤ c && c ≤ 0x7a then some (c - 0x61 + 26)
  else if 0x30 ≤ c && c ≤ 0x39 then some (c - 0x30 + 52)
  else if c = 0x2b then some 62
  else if c = 0x2f then some 63
  else none

/-- The padding character. -/
def pad : UInt8 := Ascii.equalsSign

/-! ## Writing -/

/-- The high six bits of a byte. -/
def sextet₀ (a : UInt8) : UInt8 := a >>> 2

/-- The low two bits of a byte and the high four of the next. -/
def sextet₁ (a b : UInt8) : UInt8 := ((a &&& 0x03) <<< 4) ||| (b >>> 4)

/-- The low four bits of a byte and the high two of the next. -/
def sextet₂ (b c : UInt8) : UInt8 := ((b &&& 0x0f) <<< 2) ||| (c >>> 6)

/-- The low six bits of a byte. -/
def sextet₃ (c : UInt8) : UInt8 := c &&& 0x3f

/-- The padded base64 text of a byte string. -/
def encode : Bytes → Bytes
  | [] => []
  | [a] => [symbol (sextet₀ a), symbol (sextet₁ a 0), pad, pad]
  | [a, b] => [symbol (sextet₀ a), symbol (sextet₁ a b), symbol (sextet₂ b 0), pad]
  | a :: b :: c :: rest =>
    symbol (sextet₀ a) :: symbol (sextet₁ a b) :: symbol (sextet₂ b c) :: symbol (sextet₃ c) ::
      encode rest

/-! ## Reading -/

/-- The first byte of a group, from its first two numbers. -/
def octet₀ (w x : UInt8) : UInt8 := (w <<< 2) ||| (x >>> 4)

/-- The second byte of a group, from its second and third numbers. -/
def octet₁ (x y : UInt8) : UInt8 := (x <<< 4) ||| (y >>> 2)

/-- The third byte of a group, from its last two numbers. -/
def octet₂ (y z : UInt8) : UInt8 := (y <<< 6) ||| z

/-- The byte that two characters write. -/
def group₂? (c₀ c₁ : UInt8) : Option Bytes := do
  let w ← value? c₀
  let x ← value? c₁
  return [octet₀ w x]

/-- The two bytes that three characters write. -/
def group₃? (c₀ c₁ c₂ : UInt8) : Option Bytes := do
  let w ← value? c₀
  let x ← value? c₁
  let y ← value? c₂
  return [octet₀ w x, octet₁ x y]

/-- The three bytes that four characters write. -/
def group₄? (c₀ c₁ c₂ c₃ : UInt8) : Option Bytes := do
  let w ← value? c₀
  let x ← value? c₁
  let y ← value? c₂
  let z ← value? c₃
  return [octet₀ w x, octet₁ x y, octet₂ y z]

/-- Reads the last group: two to four characters, of which those after the
second may be padding up to the end. -/
def lastGroup? : Bytes → Option Bytes
  | [c₀, c₁] => group₂? c₀ c₁
  | [c₀, c₁, c₂] => if c₂ = pad then group₂? c₀ c₁ else group₃? c₀ c₁ c₂
  | [c₀, c₁, c₂, c₃] =>
    if c₃ = pad then
      if c₂ = pad then group₂? c₀ c₁ else group₃? c₀ c₁ c₂
    else group₄? c₀ c₁ c₂ c₃
  | _ => none

/-- Reads a base64 text, or refuses it. -/
def decode? : Bytes → Option Bytes
  | [] => some []
  | c₀ :: c₁ :: c₂ :: c₃ :: c₄ :: rest => do
    let first ← group₄? c₀ c₁ c₂ c₃
    let others ← decode? (c₄ :: rest)
    return first ++ others
  | last => lastGroup? last

end Base64
end KeyTable
