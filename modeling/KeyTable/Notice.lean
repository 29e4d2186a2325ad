import KeyTable.Text.Utf8
import KeyTable.Text.Quoted

/-!
# Notices

What an operation that carries on nevertheless wants its caller to know.  A
notice has a message and named details; an operation returns its notices in the
order in which they arose.
-/

namespace KeyTable

/-- Something worth knowing that stops nothing. -/
inductive Notice where
  /-- At this offset of an escaped key stands a percent sign that opens no
  escape. -/
  | badEscape (text : Bytes) (offset : Nat)
  /-- A value line of this key is no base64, and is left out. -/
  | badBase64 (key : Bytes)
  /-- The value of the empty key has this many bytes and will not be read back
  from the dump as it is. -/
  | blobLost (length : Nat)
  /-- This key cannot be written, so the dump is given up. -/
  | malformedKey (key : Bytes)
  /-- A log is intact up to `validLength`, and damaged behind. -/
  | damagedTail (validLength discarded : Nat)
  /-- A log holds only this many bytes of its header. -/
  | partialHeader (length : Nat)
  deriving Repr, DecidableEq

namespace Notice

/-- The message of a notice. -/
def message : Notice → String
  | .badEscape .. => "bad escape in key"
  | .badBase64 _ => "skipping bad base64 line"
  | .blobLost _ => "empty key value will not read back intact"
  | .malformedKey _ => "refusing to write malformed key"
  | .damagedTail .. => "damaged log tail"
  | .partialHeader _ => "partial log header, treating as empty"

/-- The named details of a notice. -/
def details : Notice → List (String × String)
  | .badEscape text offset =>
    [("key", String.ofList (Utf8.decodeLossy text)), ("offset", toString offset)]
  | .badBase64 key => [("key", "Some(" ++ Text.quoted (Utf8.decodeLossy key) ++ ")")]
  | .blobLost length => [("len", toString length)]
  | .malformedKey key => [("key", Text.escaped (Utf8.decodeLossy key))]
  | .damagedTail validLength discarded =>
    [("valid_len", toString validLength), ("discarded", toString discarded)]
  | .partialHeader length => [("len", toString length)]

end Notice

end KeyTable
