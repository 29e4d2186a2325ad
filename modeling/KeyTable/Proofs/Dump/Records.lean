import KeyTable.Dump.Decoder
import KeyTable.Dump.Print
import KeyTable.Proofs.Base64
import KeyTable.Proofs.Bytes.Lines
import KeyTable.Proofs.Dump.Keys

/-!
# Records survive their lines

A record is written as lines, and `scan` says what lines bring about when they are
read.  This file has it that a record is read back from its own lines, whatever
was being collected in front of them.

* `field_eq_unlines`, `blob_eq_unlines` — what is written is the text of
  `fieldLines` and `blobLines`, none of which has a newline in it.
* `scan_fieldLines`, `scan_blobLines` — reading these lines completes what was being
  collected, and leaves a record with the key and the value that were written.
* `scan_records` — so the records of a whole dump come back in their order.
-/

namespace KeyTable
namespace Dump

/-! ## Reading lines -/

/-- What lines complete, one after the other, and what is being collected behind
them. -/
def scan (pending : Option Pending) : List Bytes → List Item × Option Pending
  | [] => ([], pending)
  | line :: lines =>
    ((step pending line).items ++ (scan (step pending line).pending lines).1,
      (scan (step pending line).pending lines).2)

theorem scan_cons (pending : Option Pending) (line : Bytes) (lines : List Bytes) :
    scan pending (line :: lines) =
      ((step pending line).items ++ (scan (step pending line).pending lines).1,
        (scan (step pending line).pending lines).2) := rfl

/-- Lines can be read in one go or in two. -/
theorem scan_append (pending : Option Pending) (lines others : List Bytes) :
    scan pending (lines ++ others) =
      ((scan pending lines).1 ++ (scan (scan pending lines).2 others).1,
        (scan (scan pending lines).2 others).2) := by
  induction lines generalizing pending with
  | nil => rfl
  | cons line lines ih => rw [List.cons_append, scan_cons, scan_cons, ih, List.append_assoc]

theorem step_of_header {line key : Bytes} {base64 : Bool}
    (h : Line.ofBytes line = .header key base64)
    (pending : Option Pending) :
    (step pending line).items = completed pending ∧
      (step pending line).pending = some ⟨unescapeKey key, base64, []⟩ := by
  unfold step
  rw [h]
  exact ⟨rfl, rfl⟩

theorem step_of_value {line content : Bytes} (h : Line.ofBytes line = .value content)
    (pending : Option Pending) : step pending line = stepValue pending content := by
  unfold step
  rw [h]

/-! ## Lines of text -/

/-- A line that starts with something else than an `@` is what it is. -/
theorem ofBytes_of_startsWithAt_eq_false {line : Bytes} (h : startsWithAt line = false) :
    Line.ofBytes line = .value line := by
  match line, h with
  | [], _ => rfl
  | [b], h =>
    have hb : b ≠ Ascii.atSign := by simpa [startsWithAt] using h
    rw [Line.ofBytes, if_neg hb]
  | b :: c :: rest, h =>
    have hb : b ≠ Ascii.atSign := by simpa [startsWithAt] using h
    rw [Line.ofBytes, if_neg hb]

/-- A guarded line is a value line, and means what it was. -/
theorem ofBytes_guardLine (line : Bytes) : Line.ofBytes (guardLine line) = .value line := by
  unfold guardLine
  by_cases hat : startsWithAt line = true
  · rw [if_pos hat]
    obtain ⟨rest, rfl⟩ : ∃ rest, line = Ascii.atSign :: rest := by
      simpa [startsWithAt, List.head?_eq_some_iff] using hat
    rw [Line.ofBytes, if_pos rfl, if_pos rfl]
  · rw [if_neg hat]
    exact ofBytes_of_startsWithAt_eq_false (Bool.eq_false_iff.mpr hat)

/-- Lines that only add something to the record being collected. -/
theorem scan_collected {contents : List Bytes} {written : Bytes → Bytes} {record : Pending}
    (h : ∀ content ∈ contents, ∀ other : Pending, other.base64 = record.base64 →
      step (some other) (written content) = ⟨[], some (other.push content), []⟩) :
    scan (some record) (contents.map written) =
      ([], some { record with parts := contents.reverse ++ record.parts }) := by
  induction contents generalizing record with
  | nil => rfl
  | cons content contents ih =>
    have hstep := h content List.mem_cons_self record rfl
    have hlater := @ih (record.push content) fun other hother =>
      h other (List.mem_cons_of_mem _ hother)
    rw [List.map_cons, scan_cons, hstep]
    dsimp only
    rw [hlater]
    simp only [List.nil_append, Pending.push, List.reverse_cons, List.append_assoc,
      List.singleton_append]

/-- Lines of text are collected. -/
theorem scan_text {lines : List Bytes} {written : Bytes → Bytes}
    (hwritten : ∀ line ∈ lines, Line.ofBytes (written line) = .value line) {record : Pending}
    (h : record.base64 = false) :
    scan (some record) (lines.map written) =
      ([], some { record with parts := lines.reverse ++ record.parts }) := by
  refine scan_collected ?_
  intro line hline other hother
  rw [step_of_value (hwritten line hline), stepValue]
  simp only [hother, h, Bool.false_eq_true, if_false]

/-! ## Lines of base64 -/

theorem newline_notMem_encode (bytes : Bytes) : Ascii.newline ∉ Base64.encode bytes := by
  intro hmem
  exact absurd (Base64.isSymbol_of_mem_encode hmem) (by decide)

theorem startsWithAt_encode (bytes : Bytes) : startsWithAt (Base64.encode bytes) = false := by
  rw [startsWithAt, beq_eq_false_iff_ne]
  intro hhead
  have hmem := List.mem_of_mem_head? hhead
  exact absurd (Base64.isSymbol_of_mem_encode hmem) (by decide)

/-- Lines of base64 are decoded and collected. -/
theorem scan_base64 (pieces : List Bytes) {record : Pending} (h : record.base64 = true) :
    scan (some record) (pieces.map Base64.encode) =
      ([], some { record with parts := pieces.reverse ++ record.parts }) := by
  refine scan_collected ?_
  intro piece _ other hother
  rw [step_of_value (ofBytes_of_startsWithAt_eq_false (startsWithAt_encode piece)), stepValue]
  simp only [hother, h, if_true, Base64.decode?_encode]

/-- The pieces of a value make up the value. -/
theorem flatten_chunks (value : Bytes) : (chunks value).flatten = value := by
  fun_induction chunks value with
  | case1 => rfl
  | case2 value h ih => rw [List.flatten_cons, ih, List.take_append_drop]

/-! ## Records with a header -/

/-- The lines of a record. -/
def fieldLines (key value : Bytes) : List Bytes :=
  if isBinary value then
    (headerText key ++ base64Tag) :: (chunks value ++ [[]]).map Base64.encode
  else if value = [] then [headerText key]
  else headerText key :: (value.dropLast.splitOn Ascii.newline).map guardLine

theorem guardLine_append_newline (line : Bytes) :
    guardLine (line ++ [Ascii.newline]) = guardLine line ++ [Ascii.newline] := by
  cases line with
  | nil => rfl
  | cons b line =>
    unfold guardLine startsWithAt
    rw [List.cons_append, List.head?_cons, List.head?_cons]
    split <;> rfl

theorem textLines_append_newline (text : Bytes) :
    textLines text ++ [Ascii.newline] =
      Bytes.unlines ((text.splitOn Ascii.newline).map guardLine) :=
  Bytes.flatMap_rawLines_append_newline guardLine rfl guardLine_append_newline text

theorem base64Lines_eq_unlines (value : Bytes) :
    base64Lines value = Bytes.unlines ((chunks value).map Base64.encode) := by
  rw [base64Lines, Bytes.unlines, List.flatMap_map]

/-- What is written of a record is the text of its lines. -/
theorem field_eq_unlines (key value : Bytes) :
    field key value = Bytes.unlines (fieldLines key value) := by
  unfold field fieldLines
  by_cases hbinary : isBinary value = true
  · rw [if_pos hbinary, if_pos hbinary, Bytes.unlines_cons, List.map_append,
      Bytes.unlines_append, base64Lines_eq_unlines]
    simp [Bytes.unlines_cons, Base64.encode]
  · rw [if_neg hbinary, if_neg hbinary]
    by_cases hnil : value = []
    · rw [if_pos hnil, if_pos hnil, Bytes.unlines_cons, Bytes.unlines_nil]
    · rw [if_neg hnil, if_neg hnil, Bytes.unlines_cons, ← textLines_append_newline]
      simp

theorem newline_notMem_headerText (key : Bytes) : Ascii.newline ∉ headerText key := by
  intro hmem
  rcases List.mem_cons.mp hmem with hat | hkey
  · exact absurd hat (by decide)
  · exact newline_notMem_escapeKey _ hkey

theorem newline_notMem_guardLine {line : Bytes} (h : Ascii.newline ∉ line) :
    Ascii.newline ∉ guardLine line := by
  unfold guardLine
  split
  · intro hmem
    rcases List.mem_cons.mp hmem with hat | hline
    · exact absurd hat (by decide)
    · exact h hline
  · exact h

/-- No line of a record has a newline in it. -/
theorem newline_notMem_of_mem_fieldLines {key value line : Bytes}
    (h : line ∈ fieldLines key value) : Ascii.newline ∉ line := by
  unfold fieldLines at h
  split at h
  · rcases List.mem_cons.mp h with rfl | hvalue
    · intro hmem
      rcases List.mem_append.mp hmem with hheader | htag
      · exact newline_notMem_headerText key hheader
      · exact absurd htag (by decide)
    · obtain ⟨piece, -, rfl⟩ := List.mem_map.mp hvalue
      exact newline_notMem_encode piece
  · split at h
    · rw [List.mem_singleton] at h
      rw [h]
      exact newline_notMem_headerText key
    · rcases List.mem_cons.mp h with rfl | hvalue
      · exact newline_notMem_headerText key
      · obtain ⟨piece, hpiece, rfl⟩ := List.mem_map.mp hvalue
        exact newline_notMem_guardLine (Bytes.newline_notMem_of_mem_splitOn hpiece)

/-- A value that is written as text ends in a zero byte. -/
theorem dropLast_append_of_isBinary_eq_false {value : Bytes} (h : isBinary value = false)
    (hne : value ≠ []) : value.dropLast ++ [Ascii.nul] = value := by
  refine dropLast_append_of_getLast? ?_
  unfold isBinary at h
  cases hlast : value.getLast? with
  | none => exact absurd (List.getLast?_eq_none_iff.mp hlast) hne
  | some last =>
    rw [hlast] at h
    simp only [Bool.or_eq_false_iff, bne_eq_false_iff_eq] at h
    rw [h.1.1]

/-- Reading the lines of a record completes what was being collected, and leaves
the record with its key and its value. -/
theorem scan_fieldLines (pending : Option Pending) {key : Bytes} (hkey : isGoodKey key = true)
    (hne : key ≠ emptyKey) (value : Bytes) :
    ∃ record, scan pending (fieldLines key value) = (completed pending, some record) ∧
      record.entry = ⟨key, value⟩ := by
  have hdrop := dropNul_ne_nil hkey hne
  have hback := unescapeKey_of_isGoodKey hkey
  unfold fieldLines
  by_cases hbinary : isBinary value = true
  · rw [if_pos hbinary]
    obtain ⟨hitems, hpending⟩ := step_of_header (ofBytes_taggedHeader hdrop) pending
    rw [hback] at hpending
    refine ⟨⟨key, true, (chunks value ++ [[]]).reverse⟩, ?_, ?_⟩
    · rw [headerText, List.cons_append, scan_cons, hitems, hpending, scan_base64 _ rfl,
        List.append_nil, List.append_nil]
    · simp [Pending.entry, Pending.value, flatten_chunks]
  · rw [if_neg hbinary]
    obtain ⟨hitems, hpending⟩ := step_of_header (ofBytes_header hdrop) pending
    rw [hback] at hpending
    by_cases hnil : value = []
    · rw [if_pos hnil, hnil]
      refine ⟨⟨key, false, []⟩, ?_, rfl⟩
      rw [headerText, scan_cons, hitems, hpending, scan, List.append_nil]
    · rw [if_neg hnil]
      refine ⟨⟨key, false, (value.dropLast.splitOn Ascii.newline).reverse⟩, ?_, ?_⟩
      · rw [headerText, scan_cons, hitems, hpending, scan_text (fun line _ => ofBytes_guardLine line)
          rfl, List.append_nil, List.append_nil]
      · have hlines : (value.dropLast.splitOn Ascii.newline).reverse ≠ [] :=
          List.reverse_ne_nil_iff.mpr (List.splitOn_ne_nil _ _)
        have htext : [Ascii.newline].intercalate (value.dropLast.splitOn Ascii.newline) =
            value.dropLast := List.intercalate_splitOn _
        have hvalue := dropLast_append_of_isBinary_eq_false (Bool.eq_false_iff.mpr hbinary) hnil
        simp only [Pending.entry, Pending.value, Bool.false_eq_true, if_false, if_neg hlines,
          List.reverse_reverse, htext, hvalue]

/-! ## The value without a header -/

/-- The lines of the value of the empty key. -/
def blobLines (value : Bytes) : List Bytes := value.dropNul.splitOn Ascii.newline

theorem blob_eq_unlines (value : Bytes) : blob value = Bytes.unlines (blobLines value) := by
  rw [blob, blobLines, Bytes.unlines_splitOn]

theorem startsWithAt_append_newline (line : Bytes) :
    startsWithAt (line ++ [Ascii.newline]) = startsWithAt line := by
  cases line with
  | nil => rfl
  | cons b line => rfl

/-- If no line with its newline starts with an `@`, no line does. -/
theorem startsWithAt_of_mem_splitOn {text line : Bytes} (h : text.rawLines.any startsWithAt = false)
    (hmem : line ∈ text.splitOn Ascii.newline) : startsWithAt line = false := by
  fun_induction Bytes.rawLines text with
  | case1 =>
    rw [List.splitOn_nil, List.mem_singleton] at hmem
    rw [hmem]
    rfl
  | case2 text hnone _ =>
    rw [List.splitOn_eq_singleton (Bytes.newline_notMem_of_fromNewline_eq_nil hnone),
      List.mem_singleton] at hmem
    rw [hmem]
    simpa using h
  | case3 text b rest hsome ih =>
    rw [Bytes.splitOn_of_fromNewline_eq_cons hsome] at hmem
    rw [List.any_cons, Bool.or_eq_false_iff, Bytes.eq_newline_of_fromNewline_eq_cons hsome,
      startsWithAt_append_newline] at h
    rcases List.mem_cons.mp hmem with rfl | hlater
    · exact h.1
    · exact ih h.2 hlater

/-- A value that can be written without a header opens with a line that is not
blank, and ends in a zero byte. -/
theorem blobReadsBack_spec {value : Bytes} (h : blobReadsBack value = true) :
    value.dropNul ++ [Ascii.nul] = value ∧ value.dropNul.rawLines.any startsWithAt = false ∧
      ∃ line lines, blobLines value = line :: lines ∧ line ≠ [] := by
  simp only [blobReadsBack, Bool.and_eq_true, beq_iff_eq, Bool.not_eq_true',
    List.isEmpty_eq_false_iff, bne_iff_ne, ne_eq] at h
  obtain ⟨⟨⟨⟨hlast, hne⟩, hhead⟩, -⟩, hat⟩ := h
  have hdrop : value.dropNul = value.dropLast := if_pos hlast
  rw [blobLines, hdrop]
  refine ⟨dropLast_append_of_getLast? hlast, hat, ?_⟩
  obtain ⟨line, lines, hcons⟩ := List.exists_cons_of_ne_nil
    (List.splitOn_ne_nil Ascii.newline value.dropLast)
  refine ⟨line, lines, hcons, ?_⟩
  rintro rfl
  -- a blank first line would be a newline at the beginning of the text, or no text
  have htext := Bytes.unlines_splitOn value.dropLast
  rw [hcons, Bytes.unlines_cons, List.nil_append] at htext
  obtain ⟨b, text, htextCons⟩ := List.exists_cons_of_ne_nil hne
  rw [htextCons, List.cons_append, List.cons.injEq] at htext
  exact hhead (by rw [htextCons, List.head?_cons, htext.1])

/-- Reading the lines of such a value leaves the empty key with this value. -/
theorem scan_blobLines {value : Bytes} (h : blobReadsBack value = true) :
    ∃ record, scan none (blobLines value) = ([], some record) ∧
      record.entry = ⟨emptyKey, value⟩ := by
  obtain ⟨hvalue, hat, line, lines, hcons, hne⟩ := blobReadsBack_spec h
  have hvalues : ∀ other ∈ blobLines value, Line.ofBytes other = .value other := by
    intro other hother
    exact ofBytes_of_startsWithAt_eq_false (startsWithAt_of_mem_splitOn hat hother)
  have htext : [Ascii.newline].intercalate (blobLines value) = value.dropNul :=
    List.intercalate_splitOn _
  rw [hcons] at htext
  rw [hcons] at hvalues ⊢
  refine ⟨⟨emptyKey, false, lines.reverse ++ [line]⟩, ?_, ?_⟩
  · have hfirst : step none line = ⟨[], some ⟨emptyKey, false, [line]⟩, []⟩ := by
      rw [step_of_value (hvalues line List.mem_cons_self), stepValue]
      simp only [if_neg hne]
    have hlater := @scan_text lines id
      (fun other hother => hvalues other (List.mem_cons_of_mem _ hother))
      ⟨emptyKey, false, [line]⟩ rfl
    rw [List.map_id] at hlater
    rw [scan_cons, hfirst]
    dsimp only
    rw [hlater]
    rfl
  · have hparts : lines.reverse ++ [line] ≠ [] := List.append_ne_nil_of_right_ne_nil _ (by simp)
    simp only [Pending.entry, Pending.value, Bool.false_eq_true, if_false, if_neg hparts,
      List.reverse_append, List.reverse_reverse, List.reverse_singleton, List.singleton_append,
      htext, hvalue]

/-! ## Whole dumps -/

/-- Reading the lines of records gives the records back, in their order, behind the
one that was being collected. -/
theorem scan_records {entries : List Entry}
    (h : ∀ entry ∈ entries, isGoodKey entry.key = true ∧ entry.key ≠ emptyKey)
    (pending : Option Pending) :
    (scan pending (entries.flatMap fun entry => fieldLines entry.key entry.value)).1 ++
        completed (scan pending (entries.flatMap fun entry => fieldLines entry.key entry.value)).2 =
      completed pending ++ entries.map Item.record := by
  induction entries generalizing pending with
  | nil => exact (List.append_nil _).symm
  | cons entry entries ih =>
    obtain ⟨hkey, hne⟩ := h entry List.mem_cons_self
    obtain ⟨record, hscan, hentry⟩ := scan_fieldLines pending hkey hne entry.value
    have hlater := ih (fun other hother => h other (List.mem_cons_of_mem _ hother)) (some record)
    have hrecord : completed (some record) = [.record entry] := by
      rw [show entry = record.entry from hentry.symm]
      rfl
    rw [List.flatMap_cons, scan_append, hscan]
    dsimp only
    rw [List.append_assoc, hlater, hrecord, List.map_cons, List.singleton_append]

end Dump
end KeyTable
