import KeyTable.Bytes.Basic

/-!
# Reading bytes as UTF-8

Bytes are read from left to right, one character at a time.  Where no character
can be read, the bytes are *flawed*: either they hold a sequence of one to three
bytes that no continuation could repair, or they end inside a character.

`decode` stops at the first flaw and reports it.  `decodeLossy` puts one
replacement character in place of each flaw and reads on behind it.
-/

namespace KeyTable
namespace Utf8

/-- Where the bytes stop being UTF-8, and how many bytes are at fault there;
no width means that the bytes end inside a character. -/
structure Flaw where
  /-- Index of the first byte at fault. -/
  offset : Nat
  /-- Number of bytes at fault, or none when the input ends too early. -/
  width : Option Nat
  deriving Repr, DecidableEq

/-- The text of a flaw. -/
def Flaw.message (flaw : Flaw) : String :=
  match flaw.width with
  | some width => s!"invalid utf-8 sequence of {width} bytes from index {flaw.offset}"
  | none => s!"incomplete utf-8 byte sequence from index {flaw.offset}"

/-- The character that the bytes open with, if they open with a whole one. -/
def firstChar? (bytes : Bytes) : Option Char :=
  ByteArray.utf8DecodeChar? ⟨(bytes.take 4).toArray⟩ 0

/-- The bytes that may follow the first byte of a character, as a range; none
when no character of several bytes opens with it. -/
def secondByte? (first : UInt8) : Option (UInt8 × UInt8) :=
  if 0xc2 ≤ first && first ≤ 0xdf then some (0x80, 0xbf)
  else if first = 0xe0 then some (0xa0, 0xbf)
  else if first = 0xed then some (0x80, 0x9f)
  else if 0xe1 ≤ first && first ≤ 0xef then some (0x80, 0xbf)
  else if first = 0xf0 then some (0x90, 0xbf)
  else if 0xf1 ≤ first && first ≤ 0xf3 then some (0x80, 0xbf)
  else if first = 0xf4 then some (0x80, 0x8f)
  else none

/-- The number of bytes at fault where the bytes do not open with a character:
as many as could still have been the start of one.  None when they end before
that is settled. -/
def flawWidth? : Bytes → Option Nat
  | [] => none
  | a :: rest =>
    match secondByte? a with
    | none => some 1
    | some (low, high) =>
      match rest with
      | [] => none
      | b :: rest =>
        if low ≤ b && b ≤ high then
          match rest with
          | [] => none
          | c :: rest =>
            if 0x80 ≤ c && c ≤ 0xbf then
              if rest = [] then none else some 3
            else some 2
        else some 1

/-- Reads the bytes as characters, up to the first flaw; `offset` is the index
of the first of them. -/
def decodeFrom (offset : Nat) (bytes : Bytes) : Except Flaw (List Char) :=
  match bytes with
  | [] => .ok []
  | b :: rest =>
    match firstChar? (b :: rest) with
    | none => .error ⟨offset, flawWidth? (b :: rest)⟩
    | some c =>
      match decodeFrom (offset + c.utf8Size) (rest.drop (c.utf8Size - 1)) with
      | .error flaw => .error flaw
      | .ok cs => .ok (c :: cs)
termination_by bytes.length
decreasing_by simp only [List.length_drop, List.length_cons]; omega

/-- Reads the bytes as a text, or reports the first flaw. -/
def decode (bytes : Bytes) : Except Flaw String := (decodeFrom 0 bytes).map String.ofList

/-- Reads the bytes as characters, with one replacement character for each flaw. -/
def decodeLossy (bytes : Bytes) : List Char :=
  match bytes with
  | [] => []
  | b :: rest =>
    match firstChar? (b :: rest) with
    | some c => c :: decodeLossy (rest.drop (c.utf8Size - 1))
    | none =>
      match flawWidth? (b :: rest) with
      | some width => '\ufffd' :: decodeLossy (rest.drop (width - 1))
      | none => ['\ufffd']
termination_by bytes.length
decreasing_by all_goals simp only [List.length_drop, List.length_cons]; omega

end Utf8
end KeyTable
