import KeyTable.Proofs.Dump.Feeding

/-!
# A key heads its record

A header is an `@`, the escaped key, and a tag if the value is in base64.  The escaper
writes some bytes otherwise at the front than elsewhere; a reader has to tell a header from
a value line by its first two bytes, the tag from the key by how the line ends, and the end
of the key by the first bare `&` or `=`.  Both are made for each other: whatever bytes a key
has, its header is taken for a header of just this key, and the tag for the tag.

* `step_header` — what a header brings about.
* `escaped_key_heads_record` — escaping can be undone, and a decoder in any state takes the
  header of a key, with the tag or without it.
-/

namespace KeyTable
namespace Dump

/-- The tag at the end of a header, if there is to be one. -/
def tagIf (base64 : Bool) : Bytes := if base64 then base64Tag else []

/-- A header completes the record in front of it, and nothing in it is worth noting. -/
theorem step_header {key : Bytes} (h : key ≠ []) (base64 : Bool) (pending : Option Pending) :
    step pending (Ascii.atSign :: (escapeKey key ++ tagIf base64)) =
      ⟨completed pending, some ⟨key ++ [Ascii.nul], base64, []⟩, []⟩ := by
  have hline : Line.ofBytes (Ascii.atSign :: (escapeKey key ++ tagIf base64)) =
      .header (escapeKey key) base64 := by
    cases base64 with
    | false =>
      rw [tagIf, if_neg Bool.false_ne_true, List.append_nil]
      exact ofBytes_header h
    | true => exact ofBytes_taggedHeader h
  rw [step, hline]
  simp only [unescapeKey, unescape_escapeKey, badEscapes_escapeKey, List.map_nil]

/-- Any key can be escaped and unescaped again, whatever bytes it has.  Its escaped form has no
byte in it that would end it and does not open with an `@`; so behind an `@` it makes a header,
which a decoder takes as such whatever it is collecting and holding.  The record in front of the
header is handed on, and if the receiver takes it, a record with this key is being collected. -/
theorem escaped_key_heads_record (key : Bytes) :
    unescapeKey (escapeKey key) = key ++ [Ascii.nul] ∧
    (∀ b ∈ escapeKey key, b ≠ Ascii.ampersand ∧ b ≠ Ascii.equalsSign ∧ b ≠ Ascii.space ∧
      b ≠ Ascii.newline) ∧
    (escapeKey key).head? ≠ some Ascii.atSign ∧
    (key ≠ [] → ∀ {σ ε : Type} (decoder : Decoder) (accept : σ → Item → Except ε Unit × σ)
      (receiver later : σ) (base64 : Bool),
      (deliver accept (completed decoder.pending) receiver = (.ok (), later) →
        decoder.feedLine accept receiver (Ascii.atSign :: (escapeKey key ++ tagIf base64)) =
          ⟨.ok (), { decoder with pending := some ⟨key ++ [Ascii.nul], base64, []⟩ }, later, []⟩) ∧
      ∀ error, deliver accept (completed decoder.pending) receiver = (.error error, later) →
        decoder.feedLine accept receiver (Ascii.atSign :: (escapeKey key ++ tagIf base64)) =
          ⟨.error error, { decoder with pending := none }, later, []⟩) := by
  refine ⟨?_, ?_, ?_, ?_⟩
  · rw [unescapeKey, unescape_escapeKey]
  · exact fun b hmem => isReserved_eq_false_iff.mp (isReserved_of_mem_escapeKey hmem)
  · by_cases hkey : key = []
    · rw [hkey]
      decide
    · obtain ⟨c, rest, hcons, hat⟩ := exists_escapeKey_eq_cons hkey
      rw [hcons, List.head?_cons, ne_eq, Option.some_inj]
      exact hat
  · intro hkey σ ε decoder accept receiver later base64
    have hstep := step_header hkey base64 decoder.pending
    refine ⟨?_, ?_⟩
    · intro htaken
      rw [Decoder.feedLine_of_ok (by rw [hstep]; exact htaken), hstep]
    · intro error hrefused
      rw [Decoder.feedLine_of_error (by rw [hstep]; exact hrefused)]

/-- A key that opens with an `@` and has every byte in it that is escaped, and others that are
not, behind a record of text and a piece of a line. -/
theorem escaped_key_heads_record_odd :
    let key : Bytes := Bytes.ofText "@ %+&=\n" ++ [0x00, 0xff]
    let decoder : Decoder := ⟨some ⟨[0x61, 0x00], false, [[0x78]]⟩, [0x79]⟩
    key ≠ [] ∧ escapeKey key = Bytes.ofText "%40+%25%2b%26%3d%0a" ++ [0x00, 0xff] ∧
      decoder.feedLine (keepAll (ε := Unit)) [] (Ascii.atSign :: (escapeKey key ++ base64Tag)) =
        ⟨.ok (), ⟨some ⟨key ++ [0x00], true, []⟩, [0x79]⟩,
          [.record ⟨[0x61, 0x00], [0x78, 0x00]⟩], []⟩ := by
  intro key decoder
  have hkey : key ≠ [] := by decide +kernel
  exact ⟨hkey, by decide +kernel,
    ((escaped_key_heads_record key).2.2.2 hkey decoder keepAll [] _ true).1 rfl⟩

end Dump
end KeyTable
