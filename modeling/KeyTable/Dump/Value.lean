import KeyTable.Base64
import KeyTable.Bytes.Lines

/-!
# Values in a dump

A value is written as readable text if it can be, and in base64 otherwise.  It is
readable if it is empty, or if it ends in a zero byte, holds nothing but printable
ASCII and blanks before it, and has no overlong line.  A line is overlong when it
and the newline in front of it are more than `maxSpan` bytes.

Text is written without the zero byte, and a line of it that starts with `@` gets
another `@` in front.  Base64 is written in lines of `chunkSize` bytes each.
-/

namespace KeyTable
namespace Dump

/-! ## Telling text from other values -/

/-- The most bytes that a line and the newline in front of it may have. -/
def maxSpan : Nat := 256

/-- Has no line more than `maxSpan` bytes, with the newline in front of it?  The
line being read has `span` bytes so far. -/
def linesFit (span : Nat) : Bytes → Bool
  | [] => span ≤ maxSpan
  | b :: rest =>
    if b = Ascii.newline then span ≤ maxSpan && linesFit 1 rest
    else linesFit (span + 1) rest

/-- Has this value to be written in base64? -/
def isBinary (value : Bytes) : Bool :=
  match value.getLast? with
  | none => false
  | some last =>
    last != Ascii.nul || !value.dropLast.all Ascii.isReadable || !linesFit 0 value.dropLast

/-! ## Writing -/

/-- Number of bytes in a line of base64. -/
def chunkSize : Nat := 48

/-- A byte string in pieces of `chunkSize` bytes; the last may be shorter. -/
def chunks (bytes : Bytes) : List Bytes :=
  if _h : bytes = [] then [] else bytes.take chunkSize :: chunks (bytes.drop chunkSize)
termination_by bytes.length
decreasing_by
  have := List.length_pos_iff.2 _h
  simp only [List.length_drop, chunkSize]
  omega

/-- The lines of a value in base64. -/
def base64Lines (value : Bytes) : Bytes :=
  (chunks value).flatMap fun chunk => Base64.encode chunk ++ [Ascii.newline]

/-- Does a line start with `@`? -/
def startsWithAt (line : Bytes) : Bool := line.head? == some Ascii.atSign

/-- A line of text, with another `@` in front if it starts with one. -/
def guardLine (line : Bytes) : Bytes :=
  if startsWithAt line then Ascii.atSign :: line else line

/-- The lines of a text. -/
def textLines (text : Bytes) : Bytes := text.rawLines.flatMap guardLine

/-! ## The value without a header -/

/-- Can a value be written without a header and read back as it is?  It has to be
text of at least one byte that opens with no blank line, holds no zero byte and
has no line that starts with `@`. -/
def blobReadsBack (value : Bytes) : Bool :=
  let text : Bytes := value.dropLast
  value.getLast? == some Ascii.nul && !text.isEmpty && text.head? != some Ascii.newline &&
    !text.contains Ascii.nul && !text.rawLines.any startsWithAt

end Dump
end KeyTable
