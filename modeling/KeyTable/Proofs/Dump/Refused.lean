import KeyTable.Proofs.Dump.SetBySet

/-!
# Reading into a table that refuses records

A table may refuse every record with the same fault, and be left as it was by that.  Of a
dump, such a table takes nothing: a set without records is read to its end, and any other
set up to its first record, which ends the reading in the fault.

* `deliver_refused` — the first record that is handed on is refused.
* `linesRefused` — so are those that lines complete, at the line that completes the first.
* `Turn.refused` — so is a set.
-/

namespace KeyTable
namespace Dump

open Grammar (linesOf linesOf_of_ne_nil isTerminator)

/-- Does a table refuse every record with this fault, and is it left as it was by that? -/
def Loading.Refuses (loading : Loading) (fault : Fault) : Prop :=
  ∀ entry, loading.accept (.record entry) = (.error fault, loading)

variable {fault : Fault} {loading : Loading} {pending : Option Pending} {stream behind : Stream}
  {entries : List Entry}

/-- Of several records, the first is refused, and no other is handed on. -/
theorem deliver_refused (h : loading.Refuses fault) (hentries : entries ≠ []) (items : List Item) :
    deliver Loading.accept (entries.map Item.record ++ items) loading = (.error fault, loading) := by
  obtain ⟨entry, others, rfl⟩ := List.exists_cons_of_ne_nil hentries
  rw [List.map_cons, List.cons_append]
  exact deliver_cons_of_error (h entry) _

/-! ## Reading lines -/

/-- What comes of reading lines that complete these records, when the record being collected
is `pending` in front of them. -/
structure LinesRefused (fault : Fault) (pending : Option Pending) (loading : Loading)
    (stream : Stream) (entries : List Entry) (loaded : Loaded) : Prop where
  /-- The table is as it was. -/
  table_eq : loaded.table = loading.table
  /-- So is the disk. -/
  disk_eq : loaded.disk = loading.disk
  /-- Reading ends well if there is no record, and else in the fault. -/
  answer : loaded.answer =
    if entries = [] then
      .ok ⟨loading.summary.records, isEnded (stream.handsOut loading.disk)⟩
    else .error fault
  /-- If it ends well, the later sets are left to be read. -/
  left : entries = [] →
    loaded.rest.handsOut loading.disk = laterSets (stream.handsOut loading.disk)
  /-- All lines that are taken but the last complete no record. -/
  taken : ∃ lines, linesOf (stream.handsOut loading.disk) =
    lines ++ linesOf (loaded.rest.handsOut loading.disk) ∧ (scan pending lines.dropLast).1 = []

/-- At the end of the stream, the record being collected is refused. -/
theorem linesRefused_of_end (hrefuses : loading.Refuses fault)
    (hopen : loading.summary.endOfSet = false) (hnil : stream.handsOut loading.disk = [])
    (hlast : completed pending = entries.map Item.record) (limit : Nat) :
    LinesRefused fault pending loading stream entries
      (readLines (limit + 1) ⟨pending, []⟩ loading stream) := by
  rw [readLines, Stream.readLine?_of_handsOut_eq_nil hnil]
  by_cases hentries : entries = []
  · have hfinish : Decoder.finish ⟨pending, []⟩ Loading.accept loading =
        ⟨.ok (), {}, loading, []⟩ := by
      simp only [Decoder.finish, Decoder.feedRest, if_true, hlast, hentries, List.map_nil, deliver]
    rw [hfinish]
    refine ⟨rfl, rfl, ?_, fun _ => ?_, [], rfl, rfl⟩
    · rw [if_pos hentries, hnil, isEnded_nil, ← hopen]
      rfl
    · exact hnil.trans (by rw [hnil, laterSets_nil])
  · have hdeliver := deliver_refused hrefuses hentries []
    rw [List.append_nil] at hdeliver
    have hfinish : Decoder.finish ⟨pending, []⟩ Loading.accept loading =
        ⟨.error fault, {}, loading, []⟩ := by
      simp only [Decoder.finish, Decoder.feedRest, if_true, hlast, hdeliver]
    rw [hfinish]
    exact ⟨rfl, rfl, (if_neg hentries).symm, fun h => absurd h hentries, [], rfl, rfl⟩

/-- A line that completes a record ends the reading. -/
theorem linesRefused_of_line (hrefuses : loading.Refuses fault)
    (hread : stream.readLine? loading.disk =
      some ((stream.handsOut loading.disk).upToNewline, behind))
    (hlines : linesOf (stream.handsOut loading.disk) =
      (stream.handsOut loading.disk).upToNewline :: linesOf (behind.handsOut loading.disk))
    (hentries : entries ≠ []) {first : List Entry} (hfirst : first ≠ []) {items : List Item}
    (hitems : (step pending (stream.handsOut loading.disk).upToNewline).items =
      first.map Item.record ++ items) (limit : Nat) :
    LinesRefused fault pending loading stream entries
      (readLines (limit + 1) ⟨pending, []⟩ loading stream) := by
  have hdeliver : deliver Loading.accept
      (step pending (stream.handsOut loading.disk).upToNewline).items loading =
        (.error fault, loading) := by
    rw [hitems]
    exact deliver_refused hrefuses hfirst items
  have hfed := @Decoder.feedLine_of_error _ _ Loading.accept ⟨pending, []⟩ _ _ _ _ hdeliver
  rw [readLines, hread]
  simp only [hfed]
  exact ⟨rfl, rfl, (if_neg hentries).symm, fun h => absurd h hentries, [_], hlines, rfl⟩

/-- Lines are read up to the one that completes a record, or to the end of the set if none
does.  The induction is on the limit, of which each line takes one. -/
theorem linesRefused {limit : Nat} (hrefuses : loading.Refuses fault)
    (hopen : loading.summary.endOfSet = false)
    (hlimit : (stream.handsOut loading.disk).length < limit)
    (hentries : decoded pending
      ((linesOf (stream.handsOut loading.disk)).takeWhile (!isTerminator ·)) =
        entries.map Item.record) :
    LinesRefused fault pending loading stream entries
      (readLines limit ⟨pending, []⟩ loading stream) := by
  induction limit generalizing pending stream entries with
  | zero => omega
  | succ limit ih =>
    by_cases hnil : stream.handsOut loading.disk = []
    · rw [hnil] at hentries
      exact linesRefused_of_end hrefuses hopen hnil hentries limit
    obtain ⟨behind, hread, hbehind, -, -⟩ := Stream.readLine?_of_handsOut_ne_nil hnil
    have hlines := linesOf_of_ne_nil hnil
    have hleft : behind.handsOut loading.disk = (stream.handsOut loading.disk).behindLine := hbehind
    rw [← hleft] at hlines
    rw [hlines, List.takeWhile_cons] at hentries
    cases hterminator : isTerminator (stream.handsOut loading.disk).upToNewline with
    | true =>
      rw [hterminator] at hentries
      have hlast : completed pending = entries.map Item.record := hentries
      have hitems := congrArg Step.items (step_of_isTerminator hterminator pending)
      rw [hlast] at hitems
      by_cases hnone : entries = []
      · subst hnone
        have hdeliver : deliver Loading.accept
            (step pending (stream.handsOut loading.disk).upToNewline).items loading =
              (.ok (), { loading with summary := ⟨loading.summary.records, true⟩ }) := by
          rw [hitems]
          rfl
        rw [readLines_of_readLine? hread hdeliver, if_pos rfl]
        refine ⟨rfl, rfl, ?_, fun _ => ?_, [_], hlines, rfl⟩
        · rw [if_pos rfl, isEnded_of_ne_nil hnil, hterminator]
          rfl
        · rw [laterSets_of_ne_nil hnil, hterminator, if_pos rfl]
          exact hleft
      · exact linesRefused_of_line hrefuses hread hlines hnone hnone hitems limit
    | false =>
      rw [hterminator, Bool.not_false, if_pos rfl, decoded_cons] at hentries
      obtain ⟨first, others, rfl, hfirst, hothers⟩ := List.map_eq_append_iff.mp hentries.symm
      by_cases hnone : first = []
      · -- the line completes nothing, and the next one is read
        subst hnone
        have hdeliver : deliver Loading.accept
            (step pending (stream.handsOut loading.disk).upToNewline).items loading =
              (.ok (), loading) := by
          rw [← hfirst]
          rfl
        have hlength : (behind.handsOut loading.disk).length < limit := by
          have hshort := Bytes.length_behindLine_lt hnil
          rw [hleft]
          omega
        obtain ⟨htable, hdisk, hanswer, hrest, lines, htaken, hscan⟩ := ih hlength hothers.symm
        rw [readLines_of_readLine? hread hdeliver, if_neg (ne_true_of_eq_false hopen)]
        rw [hleft] at hanswer hrest
        refine ⟨htable, hdisk, ?_, fun h => ?_,
          (stream.handsOut loading.disk).upToNewline :: lines, ?_, ?_⟩
        · rw [isEnded_of_ne_nil hnil, hterminator, Bool.false_or]
          exact hanswer
        · rw [laterSets_of_ne_nil hnil, hterminator]
          exact hrest h
        · rw [hlines, htaken]
          rfl
        · cases lines with
          | nil => rfl
          | cons line lines =>
            rw [List.dropLast_cons_of_ne_nil (List.cons_ne_nil _ _), scan_cons, hscan, ← hfirst]
            rfl
      · have hsome : first ++ others ≠ [] := List.append_ne_nil_of_left_ne_nil hnone others
        rw [← List.append_nil (List.map _ first)] at hfirst
        exact linesRefused_of_line hrefuses hread hlines hsome hnone hfirst.symm limit

/-! ## A set -/

/-- What comes of reading a set into a table that refuses every record with this fault. -/
def Turn.Refused (turn : Turn) (fault : Fault) : Prop :=
  LinesRefused fault none ⟨turn.table, turn.disk, ⟨0, false⟩⟩ turn.stream
    (entriesOf (emitted (firstSet turn.bytes))) turn.read

theorem Turn.refused {turn : Turn}
    (h : ∀ key content, turn.table.store turn.disk key content =
      ⟨.error fault, turn.table, turn.disk⟩) : turn.Refused fault := by
  have hrefuses : Loading.Refuses ⟨turn.table, turn.disk, ⟨0, false⟩⟩ fault := by
    intro entry
    simp only [Loading.accept, h]
  obtain ⟨entries, hentries, hfirst⟩ := exists_firstEntries turn.bytes
  have hrecords : entriesOf (emitted (firstSet turn.bytes)) = entries := by
    rw [hfirst, entriesOf_append, entriesOf_records]
    split <;> exact List.append_nil entries
  have hlimit : (turn.stream.handsOut turn.disk).length < lineLimit turn.disk turn.stream := by
    have hle := Stream.length_handsOut_le turn.disk turn.stream
    unfold lineLimit
    omega
  rw [Turn.Refused, hrecords]
  exact linesRefused hrefuses rfl hlimit hentries

end Dump
end KeyTable
