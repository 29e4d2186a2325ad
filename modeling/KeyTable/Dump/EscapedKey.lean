import KeyTable.Bytes.Ascii

/-!
# Keys in a header line

A header line holds a key in escaped form.  A space becomes a plus sign, so that
nothing behind a space can belong to the key; the characters that mean something
to a reader become a percent sign and two hexadecimal digits, and so does an `@`
at the front, which would otherwise make the line a value line.

A reader stops at a bare `&` or `=`, and takes a percent sign that opens no escape
as it is; `badEscapes` lists where that happens.
-/

namespace KeyTable
namespace Dump

/-! ## Well-formed keys -/

/-- The key whose value a dump writes without a header. -/
def emptyKey : Bytes := [0]

/-- Can a dump hold this key?  It has to end in a zero byte and hold no other. -/
def isGoodKey (key : Bytes) : Bool :=
  key.getLast? == some Ascii.nul && !key.dropLast.contains Ascii.nul

/-! ## Escaping -/

/-- An escaped byte: a percent sign and two digits. -/
def escape (b : UInt8) : Bytes := Ascii.percent :: Ascii.hexPair b

/-- The written form of a byte behind the first. -/
def escapeByte (b : UInt8) : Bytes :=
  if b = Ascii.space then [Ascii.plus]
  else if b = Ascii.percent || b = Ascii.plus || b = Ascii.ampersand || b = Ascii.equalsSign ||
    b = Ascii.newline then escape b
  else [b]

/-- The written form of a key, given without the zero byte that ends it. -/
def escapeKey : Bytes → Bytes
  | [] => []
  | b :: rest => (if b = Ascii.atSign then escape b else escapeByte b) ++ rest.flatMap escapeByte

/-! ## Unescaping -/

/-- The byte that two hexadecimal digits write. -/
def hexByte? (high low : UInt8) : Option UInt8 := do
  let h ← Ascii.hexValue? high
  let l ← Ascii.hexValue? low
  return (h <<< 4) ||| l

/-- Does an escaped key end at this byte? -/
def endsKey (b : UInt8) : Bool := b == Ascii.ampersand || b == Ascii.equalsSign

/-- The byte that an unescaped character stands for. -/
def plainByte (b : UInt8) : UInt8 := if b = Ascii.plus then Ascii.space else b

/-- The bytes that an escaped key stands for. -/
def unescape : Bytes → Bytes
  | [] => []
  | b :: rest =>
    if endsKey b then []
    else if b = Ascii.percent then
      match rest with
      | high :: low :: behind =>
        match hexByte? high low with
        | some byte => byte :: unescape behind
        | none => b :: unescape (high :: low :: behind)
      | short => b :: unescape short
    else plainByte b :: unescape rest

/-- The offsets of the percent signs that open no escape; `offset` is that of the
first byte. -/
def badEscapes (offset : Nat) : Bytes → List Nat
  | [] => []
  | b :: rest =>
    if endsKey b then []
    else if b = Ascii.percent then
      match rest with
      | high :: low :: behind =>
        match hexByte? high low with
        | some _ => badEscapes (offset + 3) behind
        | none => offset :: badEscapes (offset + 1) (high :: low :: behind)
      | short => offset :: badEscapes (offset + 1) short
    else badEscapes (offset + 1) rest

/-- The key that an escaped text stands for, with the zero byte that ends it. -/
def unescapeKey (text : Bytes) : Bytes := unescape text ++ [Ascii.nul]

end Dump
end KeyTable
