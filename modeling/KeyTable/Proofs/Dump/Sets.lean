import KeyTable.Fault
import KeyTable.Proofs.Dump.Grammar

/-!
# The sets of a dump

A dump may hold several sets, one behind the other, and each but the last is ended by a
terminator.  A decoder that is fed the whole dump hands on the end of a set at every
terminator, so that what it hands on falls into the records of the sets (`setsOf`).  The
bytes of the dump fall into sets as well: the first goes up to and with the first line
that is a terminator (`firstSet`), and the others are behind it (`laterSets`).

* `Bytes.induction_on_lines` — induction on bytes, line by line.
* `firstSet_append_laterSets` — of the bytes, nothing is lost.
* `step_of_isTerminator`, `exists_items_of_step` — at a terminator nothing is left to be
  collected, and no other line ends a set.
* `emitted_firstSet_append` — so what is handed on of the first set, and what a fresh decoder
  hands on of the others, make up what is handed on of the dump.
* `setsOf_eq` — the sets of a dump are its first set and the sets of the rest.
-/

namespace KeyTable

/-! ## Line by line -/

namespace Bytes

variable {bytes : Bytes}

/-- The first line, with its newline if it has one. -/
def firstLine (bytes : Bytes) : Bytes := bytes.upToNewline ++ bytes.fromNewline.take 1

/-- The bytes behind the first line. -/
def behindLine (bytes : Bytes) : Bytes := bytes.fromNewline.drop 1

theorem firstLine_append_behindLine (bytes : Bytes) :
    bytes.firstLine ++ bytes.behindLine = bytes := by
  rw [firstLine, behindLine, List.append_assoc, List.take_append_drop,
    upToNewline_append_fromNewline]

theorem length_behindLine_lt (h : bytes ≠ []) : bytes.behindLine.length < bytes.length := by
  unfold behindLine
  cases hfrom : bytes.fromNewline with
  | nil => exact List.length_pos_iff.mpr h
  | cons b rest => exact length_of_fromNewline_eq_cons hfrom

/-- What holds of no bytes, and of bytes if it holds behind their first line, holds of all
bytes. -/
@[elab_as_elim]
theorem induction_on_lines {motive : Bytes → Prop} (nil : motive [])
    (line : ∀ bytes : Bytes, bytes ≠ [] → motive bytes.behindLine → motive bytes)
    (bytes : Bytes) : motive bytes := by
  induction hlength : bytes.length using Nat.strong_induction_on generalizing bytes with
  | h length ih =>
    by_cases h : bytes = []
    · rw [h]
      exact nil
    · exact line bytes h (ih _ (hlength ▸ length_behindLine_lt h) _ rfl)

theorem firstLine_ne_nil (h : bytes ≠ []) : bytes.firstLine ≠ [] := by
  intro hnone
  have hlength := length_behindLine_lt h
  have happ := firstLine_append_behindLine bytes
  rw [hnone, List.nil_append] at happ
  rw [happ] at hlength
  exact Nat.lt_irrefl _ hlength

@[simp] theorem rawLines_nil : rawLines [] = [] := by
  rw [rawLines]
  rfl

theorem rawLines_of_ne_nil (h : bytes ≠ []) :
    bytes.rawLines = bytes.firstLine :: bytes.behindLine.rawLines := by
  have happ := upToNewline_append_fromNewline bytes
  conv_lhs => rw [rawLines]
  split
  · next hnone =>
    rw [hnone, List.append_nil] at happ
    rw [if_neg h, firstLine, behindLine, hnone, List.take_nil, List.drop_nil, List.append_nil, happ,
      rawLines]
    rfl
  · next newline rest hsome =>
    rw [firstLine, behindLine, hsome]
    rfl

/-- What is put behind the first line is behind it, if the line has a newline. -/
theorem upToNewline_firstLine_append {more : Bytes} (hmore : bytes.fromNewline = [] → more = []) :
    (bytes.firstLine ++ more).upToNewline = bytes.upToNewline ∧
      (bytes.firstLine ++ more).behindLine = more := by
  unfold firstLine behindLine
  cases hfrom : bytes.fromNewline with
  | nil =>
    have happ := upToNewline_append_fromNewline bytes
    rw [hfrom, List.append_nil] at happ
    rw [hmore hfrom, List.take_nil, List.append_nil, List.append_nil, happ, hfrom]
    exact ⟨happ, rfl⟩
  | cons b rest =>
    have hno := newline_notMem_upToNewline bytes
    rw [eq_newline_of_fromNewline_eq_cons hfrom, List.append_assoc]
    exact ⟨upToNewline_append_cons hno, congrArg (List.drop 1) (fromNewline_append_cons hno)⟩

end Bytes

namespace Dump
namespace Grammar

@[simp] theorem linesOf_nil : linesOf [] = [] := rfl

theorem linesOf_of_ne_nil {bytes : Bytes} (h : bytes ≠ []) :
    linesOf bytes = bytes.upToNewline :: linesOf bytes.behindLine := by
  have happ := Bytes.upToNewline_append_fromNewline bytes
  unfold Bytes.behindLine
  cases hfrom : bytes.fromNewline with
  | nil =>
    rw [hfrom, List.append_nil] at happ
    have hline := List.splitOn_eq_singleton (Bytes.newline_notMem_of_fromNewline_eq_nil hfrom)
    rw [linesOf, hline, List.getLast?_singleton, if_neg (by simpa using h), happ]
    rfl
  | cons b rest =>
    have hne : rest.splitOn Ascii.newline ≠ [] := List.splitOn_ne_nil _ _
    rw [linesOf, Bytes.splitOn_of_fromNewline_eq_cons hfrom, List.drop_one, List.tail_cons, linesOf,
      List.getLast?_cons_of_ne_nil hne, List.dropLast_cons_of_ne_nil hne]
    split <;> rfl

/-- The lines when something is put behind a first line that has a newline. -/
theorem linesOf_firstLine_append {bytes more : Bytes} (h : bytes ≠ [])
    (hmore : bytes.fromNewline = [] → more = []) :
    linesOf (bytes.firstLine ++ more) = bytes.upToNewline :: linesOf more := by
  obtain ⟨hline, hbehind⟩ := Bytes.upToNewline_firstLine_append hmore
  rw [linesOf_of_ne_nil (List.append_ne_nil_of_left_ne_nil (Bytes.firstLine_ne_nil h) more), hline,
    hbehind]

end Grammar

open Grammar (linesOf linesOf_nil linesOf_eq linesOf_of_ne_nil linesOf_firstLine_append
  isTerminator)

/-! ## Sets of bytes -/

/-- Is a line, given with its newline if it has one, a terminator? -/
def endsSet (line : Bytes) : Bool := line == [Ascii.atSign] || line == [Ascii.atSign, Ascii.newline]

/-- The bytes of the first set: all lines up to the first terminator, and the terminator. -/
def firstSet (bytes : Bytes) : Bytes :=
  (bytes.rawLines.takeWhile (!endsSet ·) ++ (bytes.rawLines.dropWhile (!endsSet ·)).take 1).flatten

/-- The bytes behind the first set. -/
def laterSets (bytes : Bytes) : Bytes := ((bytes.rawLines.dropWhile (!endsSet ·)).drop 1).flatten

/-- Does a terminator end the first set? -/
def isEnded (bytes : Bytes) : Bool := bytes.rawLines.any endsSet

/-- The first set and what is behind it make up the dump. -/
theorem firstSet_append_laterSets (bytes : Bytes) : firstSet bytes ++ laterSets bytes = bytes := by
  rw [firstSet, laterSets, ← List.flatten_append, List.append_assoc, List.take_append_drop,
    List.takeWhile_append_dropWhile, Bytes.flatten_rawLines]

variable {bytes : Bytes}

/-- A terminator is known by what is in front of its newline. -/
theorem endsSet_firstLine (bytes : Bytes) :
    endsSet bytes.firstLine = isTerminator bytes.upToNewline := by
  have hno := Bytes.newline_notMem_upToNewline bytes
  rw [Bool.eq_iff_iff]
  unfold endsSet isTerminator Bytes.firstLine
  simp only [Bool.or_eq_true, beq_iff_eq]
  cases hfrom : bytes.fromNewline with
  | nil =>
    rw [List.take_nil, List.append_nil, or_iff_left]
    intro hline
    rw [hline] at hno
    exact hno (by simp)
  | cons b rest =>
    rw [Bytes.eq_newline_of_fromNewline_eq_cons hfrom, List.take_succ_cons, List.take_zero]
    constructor
    · rintro (hline | hline)
      · exact absurd (congrArg List.getLast? hline) (by simp [Ascii.newline, Ascii.atSign])
      · exact (List.append_left_inj [Ascii.newline]).mp hline
    · intro hline
      rw [hline]
      exact .inr rfl

@[simp] theorem firstSet_nil : firstSet [] = [] := by
  rw [firstSet, Bytes.rawLines_nil]
  rfl

@[simp] theorem laterSets_nil : laterSets [] = [] := by
  rw [laterSets, Bytes.rawLines_nil]
  rfl

@[simp] theorem isEnded_nil : isEnded [] = false := by
  rw [isEnded, Bytes.rawLines_nil]
  rfl

section Lines

variable (h : bytes ≠ [])
include h

theorem isEnded_of_ne_nil :
    isEnded bytes = (isTerminator bytes.upToNewline || isEnded bytes.behindLine) := by
  rw [isEnded, Bytes.rawLines_of_ne_nil h, List.any_cons, endsSet_firstLine, isEnded]

theorem laterSets_of_ne_nil :
    laterSets bytes =
      if isTerminator bytes.upToNewline then bytes.behindLine else laterSets bytes.behindLine := by
  rw [laterSets, Bytes.rawLines_of_ne_nil h, List.dropWhile_cons, endsSet_firstLine]
  cases isTerminator bytes.upToNewline with
  | true => exact Bytes.flatten_rawLines _
  | false => rfl

theorem firstSet_of_ne_nil :
    firstSet bytes = bytes.firstLine ++
      if isTerminator bytes.upToNewline then [] else firstSet bytes.behindLine := by
  rw [firstSet, Bytes.rawLines_of_ne_nil h, List.takeWhile_cons, List.dropWhile_cons,
    endsSet_firstLine]
  cases isTerminator bytes.upToNewline with
  | true => simp
  | false => simp [firstSet]

end Lines

/-- The lines of the first set are the lines up to the first terminator, and the
terminator. -/
theorem linesOf_firstSet (bytes : Bytes) :
    linesOf (firstSet bytes) = (linesOf bytes).takeWhile (!isTerminator ·) ++
      if isEnded bytes then [[Ascii.atSign]] else [] := by
  induction bytes using Bytes.induction_on_lines with
  | nil => simp
  | line bytes h ih =>
    have hmore : bytes.fromNewline = [] →
        (if isTerminator bytes.upToNewline then [] else firstSet bytes.behindLine) = [] := by
      intro hnone
      rw [Bytes.behindLine, hnone, List.drop_nil, firstSet_nil, ite_self]
    rw [firstSet_of_ne_nil h, linesOf_firstLine_append h hmore, linesOf_of_ne_nil h,
      isEnded_of_ne_nil h, List.takeWhile_cons]
    cases hterminator : isTerminator bytes.upToNewline with
    | true => simpa [isTerminator] using hterminator
    | false => simp [ih]

/-- A dump is ended if one of its lines is a terminator, and the lines behind the first set
are the lines behind that one. -/
theorem linesOf_laterSets (bytes : Bytes) :
    isEnded bytes = (linesOf bytes).any isTerminator ∧
      linesOf (laterSets bytes) = ((linesOf bytes).dropWhile (!isTerminator ·)).drop 1 := by
  induction bytes using Bytes.induction_on_lines with
  | nil => simp
  | line bytes h ih =>
    rw [isEnded_of_ne_nil h, laterSets_of_ne_nil h, linesOf_of_ne_nil h, List.any_cons,
      List.dropWhile_cons]
    cases isTerminator bytes.upToNewline with
    | true => simp
    | false => simpa using ih

/-! ## What a decoder hands on -/

/-- What one decoder hands on of a whole dump. -/
def emitted (bytes : Bytes) : List Item :=
  ((Decoder.feed {} (keepAll (ε := Fault)) [] bytes).andThen (Decoder.finish · keepAll ·)).receiver

/-- The records among items. -/
def entriesOf (items : List Item) : List Entry :=
  items.filterMap fun
    | .record entry => some entry
    | .endOfSet => none

/-- The records of each set of a dump: what is handed on of the dump, cut at the ends of
sets. -/
def setsOf (bytes : Bytes) : List (List Entry) := ((emitted bytes).splitOn .endOfSet).map entriesOf

@[simp] theorem entriesOf_records (entries : List Entry) :
    entriesOf (entries.map Item.record) = entries := by
  simp [entriesOf, List.filterMap_map]

theorem entriesOf_append (items others : List Item) :
    entriesOf (items ++ others) = entriesOf items ++ entriesOf others := List.filterMap_append

theorem mem_entriesOf_iff {items : List Item} {entry : Entry} :
    entry ∈ entriesOf items ↔ .record entry ∈ items := by
  rw [entriesOf, List.mem_filterMap]
  constructor
  · rintro ⟨item, hitem, hentry⟩
    cases item with
    | record other =>
      rw [← Option.some_inj.mp hentry]
      exact hitem
    | endOfSet => cases hentry
  · exact fun hitem => ⟨.record entry, hitem, rfl⟩

theorem endOfSet_notMem_records (entries : List Entry) :
    Item.endOfSet ∉ entries.map Item.record := by simp

/-! ## Lines that end a set, and lines that do not -/

/-- What lines complete, and what is completed if nothing follows. -/
def decoded (pending : Option Pending) (lines : List Bytes) : List Item :=
  (scan pending lines).1 ++ completed (scan pending lines).2

theorem emitted_eq (bytes : Bytes) : emitted bytes = decoded none (linesOf bytes) := by
  have houtcome := congrArg Prod.snd
    (@Decoder.outcome_feed_finish _ _ (keepAll (ε := Fault)) {} [] bytes)
  rw [deliver_keepAll, ← linesOf_eq] at houtcome
  exact houtcome

/-- A decoder hands on what the dump means. -/
theorem emitted_eq_items (bytes : Bytes) : emitted bytes = Grammar.items bytes := by
  rw [emitted_eq]
  exact Grammar.scan_lines (linesOf bytes)

theorem decoded_cons (pending : Option Pending) (line : Bytes) (lines : List Bytes) :
    decoded pending (line :: lines) =
      (step pending line).items ++ decoded (step pending line).pending lines := by
  rw [decoded, scan_cons, decoded, List.append_assoc]

/-- At a terminator, nothing is left to be collected. -/
theorem step_of_isTerminator {line : Bytes} (h : isTerminator line = true)
    (pending : Option Pending) :
    step pending line = ⟨completed pending ++ [.endOfSet], none, []⟩ := by
  have hline : line = [Ascii.atSign] := by simpa [isTerminator] using h
  rw [hline]
  rfl

theorem exists_completed (pending : Option Pending) :
    ∃ entries : List Entry, completed pending = entries.map Item.record := by
  cases pending with
  | none => exact ⟨[], rfl⟩
  | some record => exact ⟨[record.entry], rfl⟩

/-- No other line ends a set: it completes records at most. -/
theorem exists_items_of_step {line : Bytes} (h : isTerminator line = false)
    (pending : Option Pending) :
    ∃ entries : List Entry, (step pending line).items = entries.map Item.record := by
  have hline := Grammar.ofBytes_eq line
  rw [h] at hline
  by_cases hheader : Grammar.isHeader line = true
  · rw [if_neg (by simp), if_pos hheader] at hline
    rw [(step_of_header hline pending).1]
    exact exists_completed pending
  · rw [if_neg (by simp), if_neg hheader] at hline
    refine ⟨[], ?_⟩
    rw [step_of_value hline]
    unfold stepValue
    split
    · split <;> rfl
    · split
      · split <;> rfl
      · rfl

/-- Lines without a terminator complete nothing but records. -/
theorem exists_decoded {lines : List Bytes} (h : ∀ line ∈ lines, isTerminator line = false)
    (pending : Option Pending) :
    ∃ entries : List Entry, decoded pending lines = entries.map Item.record := by
  induction lines generalizing pending with
  | nil => exact exists_completed pending
  | cons line lines ih =>
    obtain ⟨first, hfirst⟩ := exists_items_of_step (h line List.mem_cons_self) pending
    obtain ⟨others, hothers⟩ := ih (fun other hother => h other (List.mem_cons_of_mem _ hother))
      (step pending line).pending
    refine ⟨first ++ others, ?_⟩
    rw [decoded_cons, hfirst, hothers, List.map_append]

theorem decoded_append (pending : Option Pending) (lines others : List Bytes) :
    decoded pending (lines ++ others) =
      (scan pending lines).1 ++ decoded (scan pending lines).2 others := by
  rw [decoded, scan_append, decoded, List.append_assoc]

/-- A terminator completes what is in front of it, and what is behind it is decoded as if it
stood alone. -/
theorem decoded_append_terminator {line : Bytes} (h : isTerminator line = true)
    (pending : Option Pending) (lines others : List Bytes) :
    decoded pending (lines ++ line :: others) =
      decoded pending lines ++ .endOfSet :: decoded none others := by
  rw [decoded_append, decoded_cons, step_of_isTerminator h]
  simp only [decoded, List.append_assoc, List.singleton_append]

/-! ## Sets of records -/

theorem isTerminator_of_mem_takeWhile {lines : List Bytes} :
    ∀ line ∈ lines.takeWhile (!isTerminator ·), isTerminator line = false := by
  intro line hline
  simpa using List.mem_takeWhile_imp hline

/-- The records of the first set, which lines without a terminator make up. -/
theorem exists_firstEntries (bytes : Bytes) :
    ∃ entries : List Entry,
      decoded none ((linesOf bytes).takeWhile (!isTerminator ·)) = entries.map Item.record ∧
        emitted (firstSet bytes) =
          entries.map Item.record ++ if isEnded bytes then [.endOfSet] else [] := by
  obtain ⟨entries, hentries⟩ :=
    exists_decoded (@isTerminator_of_mem_takeWhile (linesOf bytes)) none
  refine ⟨entries, hentries, ?_⟩
  rw [emitted_eq, linesOf_firstSet]
  split
  · rw [decoded_append_terminator rfl, hentries]
    rfl
  · rw [List.append_nil, List.append_nil, hentries]

/-- Nothing of a set gets into the sets behind it: what is handed on of the dump is what is
handed on of its first set, and behind it what a fresh decoder hands on of the rest. -/
theorem emitted_firstSet_append (bytes : Bytes) :
    emitted (firstSet bytes) ++ emitted (laterSets bytes) = emitted bytes := by
  obtain ⟨hended, hlater⟩ := linesOf_laterSets bytes
  have hlines := List.takeWhile_append_dropWhile (p := (!isTerminator ·)) (l := linesOf bytes)
  rw [emitted_eq, emitted_eq, emitted_eq, linesOf_firstSet, hlater, hended]
  cases hrest : (linesOf bytes).dropWhile (!isTerminator ·) with
  | nil =>
    rw [hrest, List.append_nil] at hlines
    have hnone : (linesOf bytes).any isTerminator = false := by
      rw [← hlines, List.any_eq_false]
      intro line hline
      simpa using isTerminator_of_mem_takeWhile line hline
    rw [hnone, hlines]
    simp [decoded, scan, completed]
  | cons line others =>
    have hline : isTerminator line = true := by
      have hhead := List.head_dropWhile_not (p := (!isTerminator ·)) (l := linesOf bytes)
        (by simp [hrest])
      simpa [hrest] using hhead
    have hsome : (linesOf bytes).any isTerminator = true := by
      rw [← hlines, hrest]
      simp [hline]
    rw [hrest] at hlines
    rw [hsome, if_pos rfl, decoded_append_terminator rfl]
    conv_rhs => rw [← hlines, decoded_append_terminator hline]
    simp [decoded, scan, completed]

theorem laterSets_of_not_isEnded (h : isEnded bytes = false) : laterSets bytes = [] := by
  have hnone : bytes.rawLines.dropWhile (!endsSet ·) = [] := by
    rw [List.dropWhile_eq_nil_iff]
    intro line hline
    simpa using List.any_eq_false.mp h line hline
  rw [laterSets, hnone]
  rfl

/-- The sets of a dump are its first set and, if that is ended, the sets of the rest. -/
theorem setsOf_eq (bytes : Bytes) :
    setsOf bytes = entriesOf (emitted (firstSet bytes)) ::
      if isEnded bytes then setsOf (laterSets bytes) else [] := by
  obtain ⟨entries, -, hfirst⟩ := exists_firstEntries bytes
  have hno := endOfSet_notMem_records entries
  rw [setsOf, ← emitted_firstSet_append, hfirst, entriesOf_append, entriesOf_records]
  cases hended : isEnded bytes with
  | true =>
    simp only [if_true, List.append_assoc, List.singleton_append]
    rw [List.splitOn_append_cons_self_of_not_mem hno, List.map_cons, entriesOf_records, setsOf]
    exact congrArg (· :: _) (List.append_nil entries).symm
  | false =>
    have hnone : emitted [] = [] := emitted_eq []
    rw [laterSets_of_not_isEnded hended, hnone]
    simp only [Bool.false_eq_true, if_false, List.append_nil]
    rw [List.splitOn_eq_singleton hno, List.map_singleton, entriesOf_records]
    exact congrArg (· :: []) (List.append_nil entries).symm

end Dump
end KeyTable
