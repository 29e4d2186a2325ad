import Mathlib.Data.List.SplitBy
import KeyTable.Proofs.Dump.Feeding

/-!
# What a dump means

A dump says what it holds line by line, and a decoder finds out what it holds with a record
that it collects.  This file says what a dump holds without a decoder, and that a decoder
hands on just that.

Lines make up *groups*: a group begins with a header or a terminator, or at the beginning
of the dump, and goes on as long as value lines follow.  Every group has a meaning of its
own (`groupItems`), and a dump means what its groups mean (`items`).

* `ofBytes_eq` — which lines are terminators, headers and value lines.
* `scan_values`, `scan_blank` — what value lines add to a record, and what they make up
  where there is no header in front of them.
* `scan_group`, `scan_groups` — reading a group completes the record in front of it and
  leaves what the group means to be completed.
* `decode_spec` — so a decoder that is fed a dump and finished hands on what the dump
  means, as far as the receiver takes it.
-/

namespace KeyTable
namespace Dump
namespace Grammar

/-! ## Lines -/

/-- The lines of a dump.  The last line may lack its newline; there is no line behind a
newline that the dump ends in. -/
def linesOf (bytes : Bytes) : List Bytes :=
  if (bytes.splitOn Ascii.newline).getLast? = some [] then
    (bytes.splitOn Ascii.newline).dropLast
  else bytes.splitOn Ascii.newline

/-- A terminator is an `@` and nothing else. -/
def isTerminator (line : Bytes) : Bool := line == [Ascii.atSign]

/-- A header has at least two bytes, of which the first is an `@` and the second is not. -/
def isHeader (line : Bytes) : Bool :=
  2 ≤ line.length && line.head? == some Ascii.atSign && line.tail.head? != some Ascii.atSign

/-- Every other line is a value line. -/
def isValue (line : Bytes) : Bool := !isTerminator line && !isHeader line

/-- What a value line holds: all of it, but for an `@` at its front. -/
def contentOf (line : Bytes) : Bytes := if line.head? = some Ascii.atSign then line.tail else line

/-- Does a header say that its value is in base64?  The tag has to have something in front
of it besides the `@`. -/
def isTagged (header : Bytes) : Bool := 8 < header.length && base64Tag.isSuffixOf header

/-- The key in a header, as it is written there. -/
def writtenKey (header : Bytes) : Bytes :=
  if isTagged header then header.tail.take (header.tail.length - base64Tag.length)
  else header.tail

/-! ## Groups -/

/-- The text of value lines: none if there are no lines, and else what the lines hold,
with newlines in between and a zero byte at the end. -/
def textOf (contents : List Bytes) : Bytes :=
  if contents = [] then [] else [Ascii.newline].intercalate contents ++ [Ascii.nul]

/-- The record of a header and the value lines behind it.  Lines that are no base64 are
skipped where base64 is asked for. -/
def recordOf (header : Bytes) (values : List Bytes) : Entry where
  key := unescapeKey (writtenKey header)
  value :=
    if isTagged header then
      (values.filterMap fun line => Base64.decode? (contentOf line)).flatten
    else textOf (values.map contentOf)

/-- What value lines without a header mean: a record of the empty key, unless all of them
are blank.  Blank lines in front are dropped. -/
def headless (values : List Bytes) : List Item :=
  match (values.map contentOf).dropWhile (· = []) with
  | [] => []
  | contents => [.record ⟨emptyKey, textOf contents⟩]

/-- What a group means. -/
def groupItems : List Bytes → List Item
  | [] => []
  | line :: values =>
    if isTerminator line then .endOfSet :: headless values
    else if isHeader line then [.record (recordOf line values)]
    else headless (line :: values)

/-- The groups of lines: a new one begins at every line that is not a value line. -/
def groupsOf (lines : List Bytes) : List (List Bytes) := lines.splitBy fun _ line => isValue line

/-- What a dump means. -/
def items (bytes : Bytes) : List Item := (groupsOf (linesOf bytes)).flatMap groupItems

/-! ## Kinds of lines -/

theorem isTagged_cons (text : Bytes) :
    isTagged (Ascii.atSign :: text) =
      (base64Tag.length < text.length && base64Tag.isSuffixOf text) := by
  unfold isTagged
  rw [Bool.eq_iff_iff]
  simp only [Bool.and_eq_true, decide_eq_true_eq, List.isSuffixOf_iff_suffix, List.length_cons,
    List.suffix_cons_iff]
  have htag : base64Tag.length = 7 := rfl
  constructor
  · rintro ⟨hlength, hwhole | hsuffix⟩
    · have hsame := congrArg List.length hwhole
      rw [List.length_cons] at hsame
      omega
    · exact ⟨by omega, hsuffix⟩
  · rintro ⟨hlength, hsuffix⟩
    exact ⟨by omega, .inr hsuffix⟩

/-- Which lines are terminators, headers and value lines. -/
theorem ofBytes_eq (line : Bytes) :
    Line.ofBytes line =
      if isTerminator line then .terminator
      else if isHeader line then .header (writtenKey line) (isTagged line)
      else .value (contentOf line) := by
  match line with
  | [] => rfl
  | [b] =>
    by_cases hb : b = Ascii.atSign
    · subst hb
      rfl
    · simp [Line.ofBytes, isTerminator, isHeader, contentOf, hb]
  | b :: c :: rest =>
    by_cases hb : b = Ascii.atSign
    · subst hb
      by_cases hc : c = Ascii.atSign
      · simp [Line.ofBytes, isTerminator, isHeader, contentOf, hc]
      · have hheader : Line.ofBytes (Ascii.atSign :: c :: rest) = Line.ofHeader (c :: rest) := by
          rw [Line.ofBytes, if_pos rfl, if_neg hc]
        have hkind : isHeader (Ascii.atSign :: c :: rest) = true := by simp [isHeader, hc]
        have hother : isTerminator (Ascii.atSign :: c :: rest) = false := by simp [isTerminator]
        rw [hheader, Line.ofHeader, writtenKey, isTagged_cons, hkind, hother, List.tail_cons]
        by_cases htag : (base64Tag.length < (c :: rest).length &&
            base64Tag.isSuffixOf (c :: rest)) = true
        · simp only [htag, if_true, Bool.false_eq_true, if_false]
        · simp only [htag, if_true, Bool.false_eq_true, if_false]
    · simp [Line.ofBytes, isTerminator, isHeader, contentOf, hb]

theorem ofBytes_of_isValue {line : Bytes} (h : isValue line = true) :
    Line.ofBytes line = .value (contentOf line) := by
  simp only [isValue, Bool.and_eq_true, Bool.not_eq_true'] at h
  rw [ofBytes_eq, h.1, h.2]
  rfl

/-! ## Value lines -/

/-- What a value line adds to the value of a record. -/
def added (base64 : Bool) (line : Bytes) : Option Bytes :=
  if base64 then Base64.decode? (contentOf line) else some (contentOf line)

theorem filterMap_added_false (values : List Bytes) :
    values.filterMap (added false) = values.map contentOf :=
  congrFun List.filterMap_eq_map values

/-- Value lines add to the record being collected what they hold, as far as it can be
read. -/
theorem scan_values {values : List Bytes} (h : ∀ line ∈ values, isValue line = true)
    (record : Pending) :
    scan (some record) values =
      ([], some { record with
        parts := (values.filterMap (added record.base64)).reverse ++ record.parts }) := by
  induction values generalizing record with
  | nil => rfl
  | cons line values ih =>
    have hstep : (step (some record) line).items = [] ∧ (step (some record) line).pending =
        some { record with parts := (added record.base64 line).toList ++ record.parts } := by
      obtain ⟨key, base64, parts⟩ := record
      rw [step_of_value (ofBytes_of_isValue (h line List.mem_cons_self)), stepValue, added]
      cases base64 with
      | true => cases Base64.decode? (contentOf line) <;> exact ⟨rfl, rfl⟩
      | false => exact ⟨rfl, rfl⟩
    rw [scan_cons, hstep.1, hstep.2, ih fun other hother => h other (List.mem_cons_of_mem _ hother)]
    cases hadded : added record.base64 line with
    | none => simp [hadded]
    | some bytes => simp [hadded]

/-- The record that a header and value lines make up. -/
theorem entry_of_header (header : Bytes) (values : List Bytes) :
    Pending.entry ⟨unescapeKey (writtenKey header), isTagged header,
      (values.filterMap (added (isTagged header))).reverse⟩ = recordOf header values := by
  unfold Pending.entry Pending.value recordOf
  cases isTagged header with
  | true =>
    simp only [if_true, List.reverse_reverse]
    rfl
  | false => simp [textOf, filterMap_added_false]

/-- Value lines without a header are dropped as long as they are blank. -/
theorem scan_blank {values : List Bytes} (h : ∀ line ∈ values, isValue line = true) :
    (scan none values).1 = [] ∧ completed (scan none values).2 = headless values := by
  induction values with
  | nil => exact ⟨rfl, rfl⟩
  | cons line values ih =>
    have hothers : ∀ other ∈ values, isValue other = true :=
      fun other hother => h other (List.mem_cons_of_mem _ hother)
    have hline := ofBytes_of_isValue (h line List.mem_cons_self)
    by_cases hblank : contentOf line = []
    · have hstep : step none line = ⟨[], none, []⟩ := by
        rw [step_of_value hline, stepValue, if_pos hblank]
      have hdrop : headless (line :: values) = headless values := by
        unfold headless
        rw [List.map_cons, hblank, List.dropWhile_cons_of_pos (by simp)]
      rw [scan_cons, hstep, hdrop]
      exact ih hothers
    · have hstep : step none line = ⟨[], some ⟨emptyKey, false, [contentOf line]⟩, []⟩ := by
        rw [step_of_value hline, stepValue, if_neg hblank]
      have hkeep : headless (line :: values) =
          [.record ⟨emptyKey, textOf ((line :: values).map contentOf)⟩] := by
        unfold headless
        rw [List.map_cons, List.dropWhile_cons_of_neg (by simpa using hblank)]
      rw [scan_cons, hstep, hkeep, scan_values hothers]
      refine ⟨rfl, ?_⟩
      simp [completed, Pending.entry, Pending.value, textOf, filterMap_added_false]

/-! ## Groups -/

/-- A group that begins with a header or a terminator. -/
def Marked (group : List Bytes) : Prop :=
  ∃ mark values, group = mark :: values ∧ isValue mark = false ∧
    ∀ line ∈ values, isValue line = true

/-- Reading a group completes the record in front of it, and leaves what the group means to
be completed. -/
theorem scan_group {group : List Bytes} (h : Marked group) (pending : Option Pending) :
    (scan pending group).1 ++ completed (scan pending group).2 =
      completed pending ++ groupItems group := by
  obtain ⟨mark, values, rfl, hmark, hvalues⟩ := h
  rw [scan_cons, groupItems]
  have hkind := ofBytes_eq mark
  by_cases hterminator : isTerminator mark = true
  · rw [if_pos hterminator] at hkind ⊢
    have hstep : step pending mark = ⟨completed pending ++ [.endOfSet], none, []⟩ := by
      unfold step
      rw [hkind]
    obtain ⟨hnone, hrest⟩ := scan_blank hvalues
    rw [hstep]
    dsimp only
    rw [hnone, hrest, List.append_nil, List.append_assoc, List.singleton_append]
  · have hheader : isHeader mark = true := by
      simpa [isValue, Bool.eq_false_iff.mpr hterminator] using hmark
    rw [if_neg hterminator, if_pos hheader] at hkind ⊢
    obtain ⟨hitems, hpending⟩ := step_of_header hkind pending
    rw [hitems, hpending, scan_values hvalues, ← entry_of_header]
    dsimp only
    rw [List.append_nil, List.append_nil]
    rfl

/-- So the groups of a dump are read one by one. -/
theorem scan_groups {groups : List (List Bytes)} (h : ∀ group ∈ groups, Marked group)
    (pending : Option Pending) :
    (scan pending groups.flatten).1 ++ completed (scan pending groups.flatten).2 =
      completed pending ++ groups.flatMap groupItems := by
  induction groups generalizing pending with
  | nil => exact (List.append_nil _).symm
  | cons group groups ih =>
    have hgroup := scan_group (h group List.mem_cons_self) pending
    have hlater := ih (fun other hother => h other (List.mem_cons_of_mem _ hother))
      (scan pending group).2
    rw [List.flatten_cons, scan_append, List.flatMap_cons, ← List.append_assoc, ← hgroup]
    dsimp only
    rw [List.append_assoc, hlater, List.append_assoc]

/-- In a chain of a relation that minds only the second of two members, all but the first
are as the relation wants them. -/
theorem forall_of_isChain {α : Type} {p : α → Prop} {first : α} {others : List α}
    (h : (first :: others).IsChain fun _ next => p next) : ∀ next ∈ others, p next := by
  induction others generalizing first with
  | nil => exact nofun
  | cons second others ih =>
    rw [List.isChain_cons_cons] at h
    intro next hnext
    rcases List.mem_cons.mp hnext with rfl | hlater
    · exact h.1
    · exact ih h.2 next hlater

theorem isValue_of_mem_groupsOf {lines values : List Bytes} {first : Bytes}
    (h : (first :: values) ∈ groupsOf lines) : ∀ line ∈ values, isValue line = true :=
  forall_of_isChain (List.isChain_of_mem_splitBy h)

/-- A group is a stretch of the lines. -/
theorem exists_append_of_mem_groupsOf {lines group : List Bytes} (h : group ∈ groupsOf lines) :
    ∃ front back, lines = front ++ group ++ back := by
  have hlines : (groupsOf lines).flatten = lines := List.flatten_splitBy _ lines
  obtain ⟨front, back, hgroups⟩ := List.append_of_mem h
  refine ⟨front.flatten, back.flatten, ?_⟩
  rw [← hlines, hgroups, List.flatten_append, List.flatten_cons, List.append_assoc]

/-- Every group but the first begins with a header or a terminator. -/
theorem marked_of_groupsOf {lines first : List Bytes} {groups : List (List Bytes)}
    (h : groupsOf lines = first :: groups) : ∀ group ∈ groups, Marked group := by
  have hchain := List.isChain_getLast_head_splitBy (fun _ line => isValue line) lines
  rw [show lines.splitBy (fun _ line => isValue line) = first :: groups from h] at hchain
  intro group hgroup
  obtain ⟨hne, hmark⟩ := forall_of_isChain
    (p := fun next : List Bytes => ∃ hne : next ≠ [], isValue (next.head hne) = false)
    (hchain.imp fun _ _ hboth => hboth.2) group hgroup
  cases group with
  | nil => exact absurd rfl hne
  | cons mark values =>
    have hmem : (mark :: values) ∈ groupsOf lines := by
      rw [h]
      exact List.mem_cons_of_mem _ hgroup
    exact ⟨mark, values, rfl, hmark, isValue_of_mem_groupsOf hmem⟩

theorem groupItems_of_isValue {line : Bytes} (h : isValue line = true) (values : List Bytes) :
    groupItems (line :: values) = headless (line :: values) := by
  simp only [isValue, Bool.and_eq_true, Bool.not_eq_true'] at h
  rw [groupItems, h.1, h.2]
  rfl

/-- A record without a header has the text of what the value lines hold, from the first that
is not blank. -/
theorem exists_of_mem_headless {values : List Bytes} {entry : Entry}
    (h : .record entry ∈ headless values) :
    ∃ content contents, content ≠ [] ∧ content :: contents <:+ values.map contentOf ∧
      entry = ⟨emptyKey, textOf (content :: contents)⟩ := by
  have hsuffix := List.dropWhile_suffix (l := values.map contentOf) (· = [])
  have hhead := List.head?_dropWhile_not (· = []) (values.map contentOf)
  unfold headless at h
  cases hcontents : (values.map contentOf).dropWhile (· = []) with
  | nil =>
    rw [hcontents] at h
    exact absurd h List.not_mem_nil
  | cons content contents =>
    rw [hcontents] at h hsuffix hhead
    rw [List.mem_singleton, Item.record.injEq] at h
    exact ⟨content, contents, by simpa using hhead, hsuffix, h⟩

/-- A record of a group is that of its header, or it has none. -/
theorem record_mem_groupItems {group : List Bytes} {entry : Entry}
    (h : .record entry ∈ groupItems group) :
    (∃ header values, group = header :: values ∧ isHeader header = true ∧
        entry = recordOf header values) ∨
      ∃ values, values <:+ group ∧ .record entry ∈ headless values := by
  cases group with
  | nil => exact absurd h List.not_mem_nil
  | cons line values =>
    rw [groupItems] at h
    split at h
    · refine .inr ⟨values, List.suffix_cons line values, ?_⟩
      simpa using h
    · split at h
      · next hheader =>
        rw [List.mem_singleton, Item.record.injEq] at h
        exact .inl ⟨line, values, rfl, hheader, h⟩
      · exact .inr ⟨line :: values, List.suffix_refl _, h⟩

/-- The lines of a dump mean what its groups mean. -/
theorem scan_lines (lines : List Bytes) :
    (scan none lines).1 ++ completed (scan none lines).2 =
      (groupsOf lines).flatMap groupItems := by
  have hlines : (groupsOf lines).flatten = lines := List.flatten_splitBy _ lines
  cases hgroups : groupsOf lines with
  | nil =>
    rw [hgroups] at hlines
    subst hlines
    rfl
  | cons first groups =>
    have hmarked := marked_of_groupsOf hgroups
    have hfirst : first ∈ groupsOf lines := by
      rw [hgroups]
      exact List.mem_cons_self
    rw [hgroups] at hlines
    cases first with
    | nil => exact absurd hfirst (List.nil_notMem_splitBy _ lines)
    | cons line values =>
      have hvalues := isValue_of_mem_groupsOf hfirst
      cases hline : isValue line with
      | false =>
        have hall : ∀ group ∈ (line :: values) :: groups, Marked group :=
          List.forall_mem_cons.mpr ⟨⟨line, values, rfl, hline, hvalues⟩, hmarked⟩
        rw [← hlines]
        exact scan_groups hall none
      | true =>
        -- there is no header in front of the first lines, and nothing is being collected
        have hall : ∀ other ∈ line :: values, isValue other = true :=
          List.forall_mem_cons.mpr ⟨hline, hvalues⟩
        obtain ⟨hnone, hrest⟩ := scan_blank hall
        rw [← hlines, List.flatten_cons, scan_append, hnone, List.nil_append, List.flatMap_cons,
          groupItems_of_isValue hline, ← hrest]
        exact scan_groups hmarked _

/-- The complete lines of a dump, and the line that lacks its newline, are its lines. -/
theorem linesOf_eq (bytes : Bytes) :
    linesOf bytes =
      (Decoder.cut {} bytes).lines ++ Decoder.heldLine (Decoder.cut {} bytes).held := by
  have hsplit := LineCut.lines_append_held List.not_mem_nil bytes
  rw [List.reverse_nil, List.nil_append] at hsplit
  have hcut : LineCut.push { held := [] } bytes = Decoder.cut {} bytes := rfl
  rw [hcut] at hsplit
  unfold linesOf Decoder.heldLine
  rw [← hsplit, List.getLast?_concat, List.dropLast_concat]
  by_cases hheld : (Decoder.cut {} bytes).held = []
  · rw [hheld, List.reverse_nil, if_pos rfl, if_pos rfl, List.append_nil]
  · have hline : ¬ some (Decoder.cut {} bytes).held.reverse = some [] := by simpa using hheld
    rw [if_neg hline, if_neg hheld]

/-! ## Whole dumps -/

/-- A decoder that is fed a dump and then finished hands on what the dump means, item by
item, up to one that the receiver refuses; a receiver that takes everything gets all of
it. -/
theorem decode_spec {σ ε : Type} (accept : σ → Item → Except ε Unit × σ) (receiver : σ)
    (bytes : Bytes) :
    ((Decoder.feed {} accept receiver bytes).andThen (Decoder.finish · accept ·)).outcome =
        deliver accept (items bytes) receiver ∧
      ((Decoder.feed {} (keepAll (ε := ε)) [] bytes).andThen
          (Decoder.finish · keepAll ·)).outcome = (.ok (), items bytes) := by
  have hitems : (scan none (linesOf bytes)).1 ++ completed (scan none (linesOf bytes)).2 =
      items bytes := scan_lines (linesOf bytes)
  rw [linesOf_eq] at hitems
  rw [Decoder.outcome_feed_finish, Decoder.outcome_feed_finish]
  dsimp only
  rw [hitems, deliver_keepAll, List.nil_append]
  exact ⟨rfl, rfl⟩

/-- A blank line, the record of `k`, a terminator, and a line that lacks header and newline. -/
example : items (Bytes.ofText "\n@k\n@@v\n@\nw") =
    [.record ⟨[0x6b, 0], [0x40, 0x76, 0]⟩, .endOfSet, .record ⟨[0], [0x77, 0]⟩] := by
  decide +kernel

end Grammar
end Dump
end KeyTable
