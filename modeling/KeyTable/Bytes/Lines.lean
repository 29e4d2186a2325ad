import KeyTable.Bytes.Ascii

/-!
# Lines

Two ways of looking at a byte string as lines.  `rawLines` splits a text into lines
that keep their newline, so that nothing is lost (`flatten_rawLines`).  A
`LineCut` takes bytes that arrive piece by piece, and separates the lines that
are complete from the unfinished rest; where the pieces begin and end makes no
difference (`push_append`).
-/

namespace KeyTable

/-! ## Lines with their newlines -/

namespace Bytes

/-- The bytes before the first newline. -/
def upToNewline (bytes : Bytes) : Bytes := bytes.takeWhile (· ≠ Ascii.newline)

/-- The bytes from the first newline on. -/
def fromNewline (bytes : Bytes) : Bytes := bytes.dropWhile (· ≠ Ascii.newline)

theorem upToNewline_append_fromNewline (bytes : Bytes) :
    bytes.upToNewline ++ bytes.fromNewline = bytes :=
  List.takeWhile_append_dropWhile

theorem length_fromNewline_le (bytes : Bytes) : bytes.fromNewline.length ≤ bytes.length := by
  have h := congrArg List.length (upToNewline_append_fromNewline bytes)
  rw [List.length_append] at h
  omega

theorem length_of_fromNewline_eq_cons {bytes rest : Bytes} {b : UInt8}
    (h : bytes.fromNewline = b :: rest) : rest.length < bytes.length := by
  have hle := length_fromNewline_le bytes
  rw [h, List.length_cons] at hle
  omega

/-- The lines of a text, each with its newline; the last one may lack it. -/
def rawLines (bytes : Bytes) : List Bytes :=
  match _h : bytes.fromNewline with
  | [] => if bytes = [] then [] else [bytes]
  | newline :: rest => (bytes.upToNewline ++ [newline]) :: rawLines rest
termination_by bytes.length
decreasing_by exact length_of_fromNewline_eq_cons _h

/-- Splitting a text into lines loses nothing. -/
theorem flatten_rawLines (bytes : Bytes) : (rawLines bytes).flatten = bytes := by
  fun_induction rawLines bytes with
  | case1 => rfl
  | case2 bytes _ _ => simp
  | case3 bytes newline rest h ih =>
    rw [List.flatten_cons, ih, List.append_assoc, List.singleton_append, ← h]
    exact upToNewline_append_fromNewline bytes

end Bytes

/-! ## Lines that arrive piece by piece -/

/-- The lines of bytes that have arrived so far. -/
structure LineCut where
  /-- The complete lines, without their newlines, latest first. -/
  complete : List Bytes := []
  /-- The bytes behind the last newline, latest first. -/
  held : Bytes := []
  deriving Repr, DecidableEq

namespace LineCut

/-- Takes the next byte. -/
def pushByte (cut : LineCut) (b : UInt8) : LineCut :=
  if b = Ascii.newline then ⟨cut.held.reverse :: cut.complete, []⟩
  else { cut with held := b :: cut.held }

/-- Takes the next bytes. -/
def push (cut : LineCut) (bytes : Bytes) : LineCut := bytes.foldl pushByte cut

/-- The complete lines, first to last. -/
def lines (cut : LineCut) : List Bytes := cut.complete.reverse

/-- Bytes can be taken in one piece or in two. -/
theorem push_append (cut : LineCut) (bytes more : Bytes) :
    cut.push (bytes ++ more) = (cut.push bytes).push more :=
  List.foldl_append

end LineCut

end KeyTable
