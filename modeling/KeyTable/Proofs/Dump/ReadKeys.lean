import Mathlib
import KeyTable.Proofs.Dump.Malformed

/-!
# Keys that are read and cannot be written

A reader takes the key of a header as it comes: an escape stands for any byte, and a byte
that a writer would have escaped is kept.  It then adds the zero byte that ends the key.  A
writer refuses a key that has another zero byte in it, and the only way to such a key is a
header that writes one, in front of the first bare `&` or `=` (`WritesNul`).

* `nul_mem_unescape_iff` — which escaped keys hold a zero byte.
* `key_of_mem_items`, `exists_record_of_isHeader` — the keys of a dump are those of its
  headers, and the empty key.
* `keysHeld` — so these are the keys that can be written, and those that cannot.
* `read_keys_writable` — a set that was read into an empty table can be written again, unless
  a header of it writes a zero byte.
* `escaped_nul_unwritable` — a header that does.
-/

namespace KeyTable
namespace Dump

open Grammar

/-! ## Zero bytes in a header -/

/-- The part of an escaped key that is read: what is in front of the first bare `&` or `=`. -/
def partRead (text : Bytes) : Bytes := text.takeWhile (!endsKey ·)

/-- The escaped form of a zero byte. -/
def escapedNul : Bytes := [0x25, 0x30, 0x30]

/-- Does an escaped key hold a zero byte, as it is or escaped? -/
def WritesNul (text : Bytes) : Prop :=
  Ascii.nul ∈ partRead text ∨ escapedNul <:+: partRead text

instance (text : Bytes) : Decidable (WritesNul text) := inferInstanceAs (Decidable (_ ∨ _))

/-- A digit has a value below sixteen, which is zero for `0` alone, and it is none of the bytes
that a reader of keys looks out for. -/
theorem hexValue?_spec : ∀ n < 256, (Ascii.hexValue? (UInt8.ofNat n)).all fun v =>
    v < 16 ∧ (v = 0 ↔ UInt8.ofNat n = 0x30) ∧ endsKey (UInt8.ofNat n) = false ∧
      UInt8.ofNat n ≠ Ascii.percent ∧ UInt8.ofNat n ≠ Ascii.nul := by
  decide +kernel

theorem of_hexValue? {b v : UInt8} (h : Ascii.hexValue? b = some v) :
    v < 16 ∧ (v = 0 ↔ b = 0x30) ∧ endsKey b = false ∧ b ≠ Ascii.percent ∧ b ≠ Ascii.nul := by
  have hspec := hexValue?_spec b.toNat b.toNat_lt
  rw [UInt8.ofNat_toNat, h, Option.all_some] at hspec
  exact of_decide_eq_true hspec

theorem shiftLeft_or_eq_zero_iff : ∀ high < 16, ∀ low < 16,
    (UInt8.ofNat high <<< 4 ||| UInt8.ofNat low = 0 ↔
      UInt8.ofNat high = 0 ∧ UInt8.ofNat low = 0) := by
  decide +kernel

section Escape

variable {high low byte : UInt8} (h : hexByte? high low = some byte)
include h

/-- Both are digits. -/
theorem digits_of_hexByte? :
    (endsKey high = false ∧ high ≠ Ascii.percent ∧ high ≠ Ascii.nul) ∧
      endsKey low = false ∧ low ≠ Ascii.percent ∧ low ≠ Ascii.nul := by
  obtain ⟨first, hhigh, hrest⟩ := Option.bind_eq_some_iff.mp h
  obtain ⟨second, hlow, -⟩ := Option.bind_eq_some_iff.mp hrest
  exact ⟨(of_hexValue? hhigh).2.2, (of_hexValue? hlow).2.2⟩

/-- Only two zeros write the zero byte. -/
theorem hexByte?_eq_zero_iff : byte = 0 ↔ high = 0x30 ∧ low = 0x30 := by
  obtain ⟨first, hhigh, hrest⟩ := Option.bind_eq_some_iff.mp h
  obtain ⟨second, hlow, hbyte⟩ := Option.bind_eq_some_iff.mp hrest
  obtain ⟨hfirst, hzero, -⟩ := of_hexValue? hhigh
  obtain ⟨hsecond, hzero', -⟩ := of_hexValue? hlow
  have hboth := shiftLeft_or_eq_zero_iff first.toNat hfirst second.toNat hsecond
  rw [UInt8.ofNat_toNat, UInt8.ofNat_toNat] at hboth
  rw [← hzero, ← hzero', ← hboth, ← Option.some_inj.mp hbyte]

end Escape

/-! ## Which keys hold a zero byte -/

theorem partRead_cons {b : UInt8} (h : endsKey b = false) (text : Bytes) :
    partRead (b :: text) = b :: partRead text :=
  List.takeWhile_cons_of_pos (by rw [h]; rfl)

theorem not_writesNul_of_endsKey {b : UInt8} (h : endsKey b = true) (text : Bytes) :
    ¬ WritesNul (b :: text) := by
  rw [WritesNul, partRead, List.takeWhile_cons_of_neg (by simp [h])]
  decide

theorem writesNul_cons_iff {b : UInt8} (hends : endsKey b = false) (hne : b ≠ Ascii.percent)
    (text : Bytes) : WritesNul (b :: text) ↔ Ascii.nul = b ∨ WritesNul text := by
  have hfront : ¬ escapedNul <+: b :: partRead text := by
    rw [escapedNul, List.cons_prefix_cons]
    exact fun hboth => hne hboth.1.symm
  rw [WritesNul, WritesNul, partRead_cons hends, List.mem_cons, List.infix_cons_iff,
    or_iff_right hfront, or_assoc]

theorem writesNul_percent_iff (text : Bytes) :
    WritesNul (Ascii.percent :: text) ↔ [0x30, 0x30] <+: partRead text ∨ WritesNul text := by
  rw [WritesNul, WritesNul, partRead_cons (by decide), List.mem_cons,
    or_iff_right (a := Ascii.nul = Ascii.percent) (by decide), List.infix_cons_iff, escapedNul,
    List.cons_prefix_cons]
  simp only [Ascii.percent, true_and]
  tauto

/-- A key holds a zero byte besides its last exactly if its header writes one. -/
theorem nul_mem_unescape_iff (text : Bytes) : Ascii.nul ∈ unescape text ↔ WritesNul text := by
  fun_induction unescape text with
  | case1 => decide
  | case2 b rest hends => exact iff_of_false List.not_mem_nil (not_writesNul_of_endsKey hends rest)
  | case3 high low behind byte hbyte _ ih =>
    obtain ⟨⟨hhigh, hpercent, hnul⟩, hlow, hpercent', hnul'⟩ := digits_of_hexByte? hbyte
    rw [List.mem_cons, ih, writesNul_percent_iff, writesNul_cons_iff hhigh hpercent,
      writesNul_cons_iff hlow hpercent', partRead_cons hhigh, partRead_cons hlow,
      List.cons_prefix_cons, List.cons_prefix_cons, or_iff_right (Ne.symm hnul),
      or_iff_right (Ne.symm hnul'), eq_comm, show (Ascii.nul : UInt8) = 0 from rfl,
      hexByte?_eq_zero_iff hbyte]
    simp [eq_comm]
  | case4 high low behind hbyte _ ih =>
    have hfront : ¬ [0x30, 0x30] <+: partRead (high :: low :: behind) := by
      intro hprefix
      have hdigits := hprefix.trans (List.takeWhile_prefix _)
      rw [List.cons_prefix_cons, List.cons_prefix_cons] at hdigits
      rw [← hdigits.1, ← hdigits.2.1] at hbyte
      exact absurd hbyte (by decide)
    rw [List.mem_cons, or_iff_right (by decide), ih, writesNul_percent_iff, or_iff_right hfront]
  | case5 short hshort _ ih =>
    have hfront : ¬ [0x30, 0x30] <+: partRead short := by
      intro hprefix
      obtain ⟨behind, rfl⟩ := hprefix.trans (List.takeWhile_prefix _)
      exact hshort 0x30 0x30 behind rfl
    rw [List.mem_cons, or_iff_right (by decide), ih, writesNul_percent_iff, or_iff_right hfront]
  | case6 b rest hends hne ih =>
    have hplain : Ascii.nul = plainByte b ↔ Ascii.nul = b := by
      unfold plainByte
      split
      · next hplus => rw [hplus]; decide
      · rfl
    rw [List.mem_cons, hplain, ih, writesNul_cons_iff (Bool.eq_false_iff.mpr hends) hne]

theorem isGoodKey_unescapeKey_iff (text : Bytes) :
    isGoodKey (unescapeKey text) = true ↔ ¬ WritesNul text := by
  rw [← nul_mem_unescape_iff]
  simp [isGoodKey, unescapeKey]

/-! ## Where keys come from -/

/-- A record has the empty key, or the key of one of the headers. -/
theorem key_of_mem_items {bytes : Bytes} {entry : Entry} (h : .record entry ∈ items bytes) :
    entry.key = emptyKey ∨
      ∃ header ∈ linesOf bytes, isHeader header = true ∧
        entry.key = unescapeKey (writtenKey header) := by
  obtain ⟨group, hgroup, hitem⟩ := List.mem_flatMap.mp h
  rcases record_mem_groupItems hitem with ⟨header, values, rfl, hheader, rfl⟩ | ⟨values, -, hnone⟩
  · obtain ⟨front, back, hlines⟩ := exists_append_of_mem_groupsOf hgroup
    refine .inr ⟨header, ?_, hheader, rfl⟩
    rw [hlines]
    simp
  · obtain ⟨content, contents, -, -, rfl⟩ := exists_of_mem_headless hnone
    exact .inl rfl

theorem isValue_eq_false_of_isHeader {line : Bytes} (h : isHeader line = true) :
    isTerminator line = false ∧ isValue line = false := by
  refine ⟨?_, by rw [isValue, h, Bool.not_true, Bool.and_false]⟩
  rw [Bool.eq_false_iff]
  intro hterminator
  rw [eq_of_beq hterminator] at h
  exact absurd h (by decide)

/-- Every header brings about a record of its key. -/
theorem exists_record_of_isHeader {bytes header : Bytes} (h : header ∈ linesOf bytes)
    (hheader : isHeader header = true) :
    ∃ value, .record ⟨unescapeKey (writtenKey header), value⟩ ∈ items bytes := by
  obtain ⟨hterminator, hnovalue⟩ := isValue_eq_false_of_isHeader hheader
  have hlines : (groupsOf (linesOf bytes)).flatten = linesOf bytes := List.flatten_splitBy _ _
  rw [← hlines] at h
  obtain ⟨group, hgroup, hmem⟩ := List.mem_flatten.mp h
  cases group with
  | nil => exact absurd hmem List.not_mem_nil
  | cons first values =>
    rcases List.mem_cons.mp hmem with rfl | hlater
    · have hitems : groupItems (header :: values) = [.record (recordOf header values)] := by
        rw [groupItems, hterminator, hheader]
        rfl
      refine ⟨(recordOf header values).value, List.mem_flatMap.mpr ⟨_, hgroup, ?_⟩⟩
      rw [hitems]
      exact List.mem_singleton_self _
    · rw [isValue_of_mem_groupsOf hgroup header hlater] at hnovalue
      cases hnovalue

/-! ## All of this together -/

/-- Which keys a dump holds. -/
structure KeysHeld (bytes : Bytes) : Prop where
  /-- A key ends in a zero byte. -/
  ended : ∀ entry, .record entry ∈ items bytes → entry.key.getLast? = some Ascii.nul
  /-- It can be written, unless it is the key of a header that writes a zero byte. -/
  good : ∀ entry, .record entry ∈ items bytes → isGoodKey entry.key = true ∨
    ∃ header ∈ linesOf bytes, isHeader header = true ∧ WritesNul (writtenKey header) ∧
      entry.key = unescapeKey (writtenKey header)
  /-- The key of such a header is there, and cannot be written. -/
  bad : ∀ header ∈ linesOf bytes, isHeader header = true → WritesNul (writtenKey header) →
    ∃ entry, .record entry ∈ items bytes ∧ entry.key = unescapeKey (writtenKey header) ∧
      isGoodKey entry.key = false

theorem keysHeld (bytes : Bytes) : KeysHeld bytes where
  ended := by
    intro entry hentry
    rcases key_of_mem_items hentry with hkey | ⟨header, -, -, hkey⟩
    · rw [hkey]
      rfl
    · rw [hkey, unescapeKey, List.getLast?_concat]
  good := by
    intro entry hentry
    rcases key_of_mem_items hentry with hkey | ⟨header, hmem, hheader, hkey⟩
    · exact .inl (by rw [hkey]; decide)
    · by_cases hnul : WritesNul (writtenKey header)
      · exact .inr ⟨header, hmem, hheader, hnul, hkey⟩
      · exact .inl (by rw [hkey]; exact (isGoodKey_unescapeKey_iff _).mpr hnul)
  bad := by
    intro header hmem hheader hnul
    obtain ⟨value, hvalue⟩ := exists_record_of_isHeader hmem hheader
    refine ⟨_, hvalue, rfl, ?_⟩
    rw [Bool.eq_false_iff]
    exact fun hgood => (isGoodKey_unescapeKey_iff _).mp hgood hnul

/-- Does a header of the first set write a zero byte? -/
def SetWritesNul (bytes : Bytes) : Prop :=
  ∃ header ∈ linesOf (firstSet bytes), isHeader header = true ∧ WritesNul (writtenKey header)

instance (bytes : Bytes) : Decidable (SetWritesNul bytes) :=
  inferInstanceAs (Decidable (∃ header ∈ _, _ ∧ _))

section Read

variable {turn : Turn} (htakes : turn.table.Takes turn.stream.origin?)
  (hempty : turn.table.inMemory.contents = ∅)
include htakes hempty

/-- A set that is read into an empty table leaves the keys of its records there. -/
theorem mem_contents_read_iff {key : Bytes} :
    key ∈ turn.read.table.inMemory.contents ↔
      ∃ entry, .record entry ∈ items (firstSet turn.bytes) ∧ entry.key = key := by
  rw [contents_read htakes hempty, ← not_iff_not, ← Finmap.lookup_eq_none, firstContents,
    Contents.ofChanges, Contents.lookup_foldl_stores, Finmap.lookup_empty, Option.or_none,
    Contents.latest?_eq_none_iff, emitted_eq_items]
  simp only [mem_entriesOf_iff]
  push Not
  rfl

/-- A table that a set was read into can be written, unless a header of the set writes a zero
byte. -/
theorem writable_read_iff :
    Writable turn.read.table.inMemory.contents ↔ ¬ SetWritesNul turn.bytes := by
  have hkeys := keysHeld (firstSet turn.bytes)
  constructor
  · rintro hwritable ⟨header, hmem, hheader, hnul⟩
    obtain ⟨entry, hentry, hkey, hbad⟩ := hkeys.bad header hmem hheader hnul
    have hthere := (mem_contents_read_iff htakes hempty).mpr ⟨entry, hentry, rfl⟩
    have hne : entry.key ≠ emptyKey := by
      intro hsame
      rw [hsame] at hbad
      exact absurd hbad (by decide)
    rw [hwritable entry.key hthere hne] at hbad
    cases hbad
  · intro hnone key hkey _
    obtain ⟨entry, hentry, rfl⟩ := (mem_contents_read_iff htakes hempty).mp hkey
    rcases hkeys.good entry hentry with hgood | ⟨header, hmem, hheader, hnul, -⟩
    · exact hgood
    · exact absurd ⟨header, hmem, hheader, hnul⟩ hnone

end Read

/-- What is read can be written again, as far as no header writes a zero byte.  A decoder that
is fed a dump in any pieces hands on the records that the dump means, and these are their keys;
and a table that was empty before a set was read into it is written, or else refused for such a
key. -/
theorem read_keys_writable :
    (∀ {σ ε : Type} (accept : σ → Item → Except ε Unit × σ) (receiver : σ) (pieces : List Bytes),
      ((Decoder.feedPieces accept pieces {} receiver).andThen (Decoder.finish · accept ·)).outcome =
        deliver accept (items pieces.flatten) receiver) ∧
    (∀ bytes, KeysHeld bytes) ∧
    ∀ turn : Turn, turn.table.Takes turn.stream.origin? → turn.table.inMemory.contents = ∅ →
      (∃ summary, turn.read.answer = .ok summary) ∧
      (¬ SetWritesNul turn.bytes → (print turn.read.table).answer = .ok ()) ∧
      (SetWritesNul turn.bytes → ∃ key ∈ turn.read.table.inMemory.contents,
        isGoodKey key = false ∧ (print turn.read.table).answer = .error (.malformedKey key)) := by
  refine ⟨?_, keysHeld, ?_⟩
  · intro σ ε accept receiver pieces
    rw [Decoder.feedPieces_eq]
    exact (decode_spec accept receiver pieces.flatten).1
  · intro turn htakes hempty
    obtain ⟨hreads, hleaves⟩ := Turn.read_spec htakes
    refine ⟨⟨_, hreads.answer⟩, ?_, ?_⟩
    · intro hnone
      have hwritable := (writable_read_iff htakes hempty).mpr hnone
      exact (print_eq_dumpOf hleaves.takes.reachable.sound hwritable).1
    · intro hsome
      have hkeys : ¬ Writable turn.read.table.inMemory.contents :=
        fun hwritable => (writable_read_iff htakes hempty).mp hwritable hsome
      obtain ⟨key, hmem, hbad, hanswer, -⟩ := print_malformed hleaves.takes.reachable.sound hkeys
      exact ⟨key, hmem, hbad, hanswer⟩

/-- A key with an escape that is none, a plus sign, an escaped letter and, behind a bare `&`, a
zero byte that is not read. -/
theorem read_keys_writable_odd :
    let turn := reading (Bytes.ofText "@%zz+%41&%00\nv\n")
    turn.table.Takes turn.stream.origin? ∧ turn.table.inMemory.contents = ∅ ∧
      ¬ SetWritesNul turn.bytes ∧
      turn.read.table.inMemory.contents.lookup [0x25, 0x7a, 0x7a, 0x20, 0x41, 0x00] =
        some [0x76, 0x00] ∧
      (print turn.read.table).answer = .ok () := by
  intro turn
  have htakes : turn.table.Takes turn.stream.origin? := takes_reading _
  have hempty : turn.table.inMemory.contents = ∅ := contents_reading _
  have hnone : ¬ SetWritesNul turn.bytes := by decide +kernel
  exact ⟨htakes, hempty, hnone, by decide +kernel,
    (read_keys_writable.2.2 turn htakes hempty).2.1 hnone⟩

/-- A key with an escaped zero byte is read, and then the table cannot be written. -/
theorem escaped_nul_unwritable :
    let turn := reading (Bytes.ofText "@a%00b\nv\n")
    items turn.bytes = [.record ⟨[0x61, 0x00, 0x62, 0x00], [0x76, 0x00]⟩] ∧
      isGoodKey [0x61, 0x00, 0x62, 0x00] = false ∧
      turn.read.answer = .ok ⟨1, false⟩ ∧
      (print turn.read.table).answer = .error (.malformedKey [0x61, 0x00, 0x62, 0x00]) := by
  decide +kernel

end Dump
end KeyTable
