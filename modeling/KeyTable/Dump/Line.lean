import KeyTable.Dump.EscapedKey

/-!
# Lines of a dump

A line that starts with a single `@` is a *terminator* if nothing follows, and a
*header* otherwise.  Every other line is a *value line*; if it starts with two
`@`, the first of them only tells it from a header, and is dropped.

A header says by the tag ` base64` at its end how the value lines behind it are
to be read.  The tag has to have something in front of it.
-/

namespace KeyTable
namespace Dump

/-- The end of a header whose value is in base64. -/
def base64Tag : Bytes := [0x20, 0x62, 0x61, 0x73, 0x65, 0x36, 0x34]

/-- A line of a dump, by what it means to a reader. -/
inductive Line where
  /-- The end of a set. -/
  | terminator
  /-- The beginning of a record: its escaped key, and whether its value is in
  base64. -/
  | header (key : Bytes) (base64 : Bool)
  /-- A line of a value. -/
  | value (content : Bytes)
  deriving Repr, DecidableEq

namespace Line

/-- Reads what follows the `@` of a header. -/
def ofHeader (text : Bytes) : Line :=
  if base64Tag.length < text.length && base64Tag.isSuffixOf text then
    .header (text.take (text.length - base64Tag.length)) true
  else .header text false

/-- Reads a line, given without its newline. -/
def ofBytes : Bytes → Line
  | [] => .value []
  | [b] => if b = Ascii.atSign then .terminator else .value [b]
  | b :: c :: rest =>
    if b = Ascii.atSign then
      if c = Ascii.atSign then .value (c :: rest) else ofHeader (c :: rest)
    else .value (b :: c :: rest)

end Line

/-- The line that ends a set. -/
def terminatorLine : Bytes := [Ascii.atSign, Ascii.newline]

end Dump
end KeyTable
