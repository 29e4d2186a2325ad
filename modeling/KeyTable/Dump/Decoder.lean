import KeyTable.Base64
import KeyTable.Bytes.Lines
import KeyTable.Dump.Line
import KeyTable.MemoryTable.Record
import KeyTable.Notice

/-!
# Decoding a dump piece by piece

A decoder takes a dump in pieces, whole lines or any bytes, and hands the records
and the ends of sets on to a *receiver* as soon as they are complete.  What is not
complete it keeps: the record that is being collected, and the bytes behind the
last newline, which it *holds* with the latest of them first.

The meaning of a line is given by `step`, a function on the record being
collected.  Lines in front of the first header belong to the empty key; blank
ones there mean nothing.

A receiver may refuse an item.  The decoder then gives up what it was given, with
no record being collected, so nothing of it can get into a later record.
-/

namespace KeyTable
namespace Dump

/-- What a decoder hands on. -/
inductive Item where
  /-- A complete record. -/
  | record (entry : Entry)
  /-- The end of a set. -/
  | endOfSet
  deriving Repr, DecidableEq

/-- A record that is being collected. -/
structure Pending where
  /-- The key. -/
  key : Bytes
  /-- Are the value lines in base64? -/
  base64 : Bool
  /-- What the value lines hold, latest first. -/
  parts : List Bytes
  deriving Repr, DecidableEq

namespace Pending

/-- The value collected so far.  Lines of text are joined by newlines and ended by
a zero byte, if there is any; lines of base64 follow each other. -/
def value (pending : Pending) : Bytes :=
  if pending.base64 then pending.parts.reverse.flatten
  else if pending.parts = [] then []
  else [Ascii.newline].intercalate pending.parts.reverse ++ [Ascii.nul]

/-- The record collected so far. -/
def entry (pending : Pending) : Entry := ⟨pending.key, pending.value⟩

/-- Adds the content of a value line. -/
def push (pending : Pending) (content : Bytes) : Pending :=
  { pending with parts := content :: pending.parts }

end Pending

/-! ## One line -/

/-- What a line brings about. -/
structure Step where
  /-- What it completes. -/
  items : List Item
  /-- The record being collected behind it. -/
  pending : Option Pending
  /-- What is worth knowing about it. -/
  notices : List Notice
  deriving Repr, DecidableEq

/-- The record that is completed when nothing more belongs to it. -/
def completed (pending : Option Pending) : List Item :=
  (pending.map fun record => Item.record record.entry).toList

/-- What a value line adds to the record being collected. -/
def stepValue (pending : Option Pending) (content : Bytes) : Step :=
  match pending with
  | none =>
    if content = [] then ⟨[], none, []⟩ else ⟨[], some ⟨emptyKey, false, [content]⟩, []⟩
  | some record =>
    if record.base64 then
      match Base64.decode? content with
      | some bytes => ⟨[], some (record.push bytes), []⟩
      | none => ⟨[], some record, [.badBase64 record.key]⟩
    else ⟨[], some (record.push content), []⟩

/-- What a line brings about while a record is being collected. -/
def step (pending : Option Pending) (line : Bytes) : Step :=
  match Line.ofBytes line with
  | .terminator => ⟨completed pending ++ [.endOfSet], none, []⟩
  | .header key base64 =>
    ⟨completed pending, some ⟨unescapeKey key, base64, []⟩,
      (badEscapes 0 key).map fun offset => .badEscape key offset⟩
  | .value content => stepValue pending content

/-! ## Receivers -/

/-- Hands items to a receiver until it refuses one.  A receiver answers to each
item, and may change whatever it answers. -/
def deliver {σ ε : Type} (accept : σ → Item → Except ε Unit × σ) :
    List Item → σ → Except ε Unit × σ
  | [], receiver => (.ok (), receiver)
  | item :: items, receiver =>
    match accept receiver item with
    | (.ok (), receiver) => deliver accept items receiver
    | (.error error, receiver) => (.error error, receiver)

/-! ## The decoder -/

/-- What a decoder keeps between two pieces of a dump. -/
structure Decoder where
  /-- The record being collected. -/
  pending : Option Pending := none
  /-- The bytes behind the last newline, latest first. -/
  held : Bytes := []
  deriving Repr, DecidableEq

/-- What came of handing a piece of a dump to a decoder. -/
structure Fed (σ ε : Type) where
  /-- Why the receiver refused an item, if it did. -/
  answer : Except ε Unit
  /-- The decoder afterwards. -/
  decoder : Decoder
  /-- The receiver afterwards. -/
  receiver : σ
  /-- What was worth knowing. -/
  notices : List Notice

namespace Decoder

variable {σ ε : Type}

/-- Is no record being collected? -/
def isIdle (decoder : Decoder) : Bool := decoder.pending.isNone

/-- Takes one line, given without its newline. -/
def feedLine (decoder : Decoder) (accept : σ → Item → Except ε Unit × σ) (receiver : σ)
    (line : Bytes) : Fed σ ε :=
  let step := step decoder.pending line
  match deliver accept step.items receiver with
  | (.ok (), receiver) =>
    ⟨.ok (), { decoder with pending := step.pending }, receiver, step.notices⟩
  | (.error error, receiver) => ⟨.error error, { decoder with pending := none }, receiver, []⟩

/-- Takes several lines, up to one at which the receiver refuses an item. -/
def feedLines (accept : σ → Item → Except ε Unit × σ) :
    List Bytes → Decoder → σ → Fed σ ε
  | [], decoder, receiver => ⟨.ok (), decoder, receiver, []⟩
  | line :: lines, decoder, receiver =>
    let fed := decoder.feedLine accept receiver line
    match fed.answer with
    | .error _ => fed
    | .ok () =>
      let others := feedLines accept lines fed.decoder fed.receiver
      { others with notices := fed.notices ++ others.notices }

/-- Takes any bytes.  Complete lines are decoded, and what is behind the last
newline is held. -/
def feed (decoder : Decoder) (accept : σ → Item → Except ε Unit × σ) (receiver : σ)
    (bytes : Bytes) : Fed σ ε :=
  let cut : LineCut := LineCut.push { held := decoder.held } bytes
  let fed := feedLines accept cut.lines { decoder with held := [] } receiver
  match fed.answer with
  | .error _ => fed
  | .ok () => { fed with decoder := { fed.decoder with held := cut.held } }

/-- Takes the line that is held without its newline, if there is one. -/
def feedRest (decoder : Decoder) (accept : σ → Item → Except ε Unit × σ) (receiver : σ) :
    Fed σ ε :=
  if decoder.held = [] then ⟨.ok (), decoder, receiver, []⟩
  else { decoder with held := [] }.feedLine accept receiver decoder.held.reverse

/-- The end of the dump: takes a last line without a newline, and hands on the
record being collected. -/
def finish (decoder : Decoder) (accept : σ → Item → Except ε Unit × σ) (receiver : σ) :
    Fed σ ε :=
  let fed := decoder.feedRest accept receiver
  match fed.answer with
  | .error _ => fed
  | .ok () =>
    let (answer, receiver) := deliver accept (completed fed.decoder.pending) fed.receiver
    { fed with answer, receiver, decoder := { fed.decoder with pending := none } }

end Decoder

end Dump
end KeyTable
