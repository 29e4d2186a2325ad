import Mathlib.Data.List.TakeWhile
import Mathlib.Tactic.Conv
import KeyTable.Bytes.Lines

/-!
# Texts and their lines

A text is written line by line, with a newline behind each (`unlines`), and it is
read line by line.  A text that need not end in a newline has the lines
`text.splitOn newline`; with one more newline at its end, writing these gives it
back (`unlines_splitOn`).

* `upToNewline_append_cons`, `fromNewline_append_cons` — what is in front of the
  first newline of a text that opens with a line, and what is behind.
* `flatMap_rawLines_append_newline` — a text that is changed line by line is the text
  of the changed lines, if the change minds only how a line begins.
-/

namespace KeyTable
namespace Bytes

/-! ## Texts that open with a line -/

variable {line rest : Bytes}

theorem upToNewline_append (h : Ascii.newline ∉ line) :
    upToNewline (line ++ rest) = line ++ rest.upToNewline := by
  refine List.takeWhile_append_of_pos ?_
  intro b hb
  rw [decide_eq_true_iff]
  rintro rfl
  exact h hb

theorem fromNewline_append (h : Ascii.newline ∉ line) :
    fromNewline (line ++ rest) = rest.fromNewline := by
  refine List.dropWhile_append_of_pos ?_
  intro b hb
  rw [decide_eq_true_iff]
  rintro rfl
  exact h hb

theorem upToNewline_append_cons (h : Ascii.newline ∉ line) :
    upToNewline (line ++ Ascii.newline :: rest) = line := by
  rw [upToNewline_append h, upToNewline, List.takeWhile_cons_of_neg (by decide), List.append_nil]

theorem fromNewline_append_cons (h : Ascii.newline ∉ line) :
    fromNewline (line ++ Ascii.newline :: rest) = Ascii.newline :: rest := by
  rw [fromNewline_append h, fromNewline, List.dropWhile_cons_of_neg (by decide)]

theorem newline_notMem_upToNewline (bytes : Bytes) : Ascii.newline ∉ bytes.upToNewline := by
  intro hmem
  have hne := List.mem_takeWhile_imp hmem
  simp at hne

/-- What begins with the first newline begins with a newline. -/
theorem eq_newline_of_fromNewline_eq_cons {bytes : Bytes} {b : UInt8}
    (h : bytes.fromNewline = b :: rest) : b = Ascii.newline := by
  have hhead := List.head?_dropWhile_not (· ≠ Ascii.newline) bytes
  rw [show bytes.dropWhile (· ≠ Ascii.newline) = b :: rest from h] at hhead
  simpa using hhead

/-! ## Writing lines -/

/-- The text of these lines, with a newline behind each. -/
def unlines (lines : List Bytes) : Bytes := lines.flatMap (· ++ [Ascii.newline])

@[simp] theorem unlines_nil : unlines [] = [] := rfl

theorem unlines_cons (line : Bytes) (lines : List Bytes) :
    unlines (line :: lines) = line ++ Ascii.newline :: unlines lines := by
  rw [unlines, List.flatMap_cons, List.append_assoc]
  rfl

theorem unlines_append (lines others : List Bytes) :
    unlines (lines ++ others) = unlines lines ++ unlines others :=
  List.flatMap_append

theorem length_unlines (lines : List Bytes) :
    (unlines lines).length = lines.flatten.length + lines.length := by
  induction lines with
  | nil => rfl
  | cons line lines ih =>
    simp only [unlines_cons, List.length_append, List.length_cons, List.flatten_cons, ih]
    omega

theorem length_le_length_unlines (lines : List Bytes) : lines.length ≤ (unlines lines).length := by
  induction lines with
  | nil => exact Nat.le_refl _
  | cons line lines ih =>
    rw [unlines_cons, List.length_append, List.length_cons, List.length_cons]
    omega

/-- One more line is joined to the others by a separator. -/
theorem intercalate_concat {lines : List Bytes} (h : lines ≠ []) (separator line : Bytes) :
    separator.intercalate (lines ++ [line]) =
      separator.intercalate lines ++ separator ++ line := by
  induction lines with
  | nil => exact absurd rfl h
  | cons first lines ih =>
    cases lines with
    | nil => simp [List.intercalate_cons_cons]
    | cons second lines =>
      simp only [List.cons_append, List.intercalate_cons_cons, List.append_assoc] at ih ⊢
      rw [ih (List.cons_ne_nil _ _)]

/-! ## The lines of a text -/

theorem newline_notMem_of_fromNewline_eq_nil {text : Bytes} (h : text.fromNewline = []) :
    Ascii.newline ∉ text := by
  rw [← upToNewline_append_fromNewline text, h, List.append_nil]
  exact newline_notMem_upToNewline text

/-- A text with a newline has what is in front of the first as its first line. -/
theorem splitOn_of_fromNewline_eq_cons {text : Bytes} {b : UInt8}
    (h : text.fromNewline = b :: rest) :
    text.splitOn Ascii.newline = text.upToNewline :: rest.splitOn Ascii.newline := by
  have happ := upToNewline_append_fromNewline text
  rw [h, eq_newline_of_fromNewline_eq_cons h] at happ
  conv_lhs => rw [← happ]
  exact List.splitOn_append_cons_self_of_not_mem (newline_notMem_upToNewline text) rest

/-- No line of a text has a newline in it. -/
theorem newline_notMem_of_mem_splitOn {text : Bytes}
    (h : line ∈ text.splitOn Ascii.newline) : Ascii.newline ∉ line := by
  fun_induction rawLines text with
  | case1 =>
    rw [List.splitOn_nil, List.mem_singleton] at h
    rw [h]
    exact List.not_mem_nil
  | case2 text hnone _ =>
    have hno := newline_notMem_of_fromNewline_eq_nil hnone
    rw [List.splitOn_eq_singleton hno, List.mem_singleton] at h
    rw [h]
    exact hno
  | case3 text b rest hsome ih =>
    rw [splitOn_of_fromNewline_eq_cons hsome] at h
    rcases List.mem_cons.mp h with rfl | hmem
    · exact newline_notMem_upToNewline text
    · exact ih hmem

/-- With a newline behind its last line, a text is the text of its lines. -/
theorem unlines_splitOn (text : Bytes) :
    unlines (text.splitOn Ascii.newline) = text ++ [Ascii.newline] := by
  fun_induction rawLines text with
  | case1 => rfl
  | case2 text h _ =>
    rw [List.splitOn_eq_singleton (newline_notMem_of_fromNewline_eq_nil h), unlines_cons,
      unlines_nil]
  | case3 text b rest h ih =>
    have happ := upToNewline_append_fromNewline text
    rw [h, eq_newline_of_fromNewline_eq_cons h] at happ
    rw [splitOn_of_fromNewline_eq_cons h, unlines_cons, ih, ← List.cons_append,
      ← List.append_assoc, happ]

/-- A text whose lines are changed one by one, where the change minds only how a
line begins. -/
theorem flatMap_rawLines_append_newline (change : Bytes → Bytes)
    (hnil : change [] = [])
    (hchange : ∀ line, change (line ++ [Ascii.newline]) = change line ++ [Ascii.newline])
    (text : Bytes) :
    text.rawLines.flatMap change ++ [Ascii.newline] =
      unlines ((text.splitOn Ascii.newline).map change) := by
  fun_induction rawLines text with
  | case1 => simp [List.splitOn_nil, unlines_cons, hnil]
  | case2 text h _ =>
    rw [List.splitOn_eq_singleton (newline_notMem_of_fromNewline_eq_nil h)]
    simp [unlines_cons]
  | case3 text b rest h ih =>
    rw [splitOn_of_fromNewline_eq_cons h, List.map_cons, unlines_cons, ← ih, List.flatMap_cons,
      eq_newline_of_fromNewline_eq_cons h, hchange]
    simp only [List.append_assoc, List.cons_append, List.nil_append]

end Bytes

/-! ## Lines that arrive piece by piece -/

namespace LineCut

/-- Lines that are complete already make no difference to those that come behind. -/
theorem push_eq (cut : LineCut) (bytes : Bytes) :
    cut.push bytes =
      ⟨(push { held := cut.held } bytes).complete ++ cut.complete,
        (push { held := cut.held } bytes).held⟩ := by
  induction bytes generalizing cut with
  | nil => rfl
  | cons b bytes ih =>
    have hbyte : cut.pushByte b =
        ⟨(pushByte { held := cut.held } b).complete ++ cut.complete,
          (pushByte { held := cut.held } b).held⟩ := by
      unfold pushByte
      split <;> rfl
    have hlater := ih (pushByte { held := cut.held } b)
    show (cut.pushByte b).push bytes =
      ⟨((pushByte { held := cut.held } b).push bytes).complete ++ cut.complete,
        ((pushByte { held := cut.held } b).push bytes).held⟩
    rw [ih, hlater, hbyte, List.append_assoc]

theorem push_of_notMem {bytes : Bytes} (h : Ascii.newline ∉ bytes) (cut : LineCut) :
    cut.push bytes = { cut with held := bytes.reverse ++ cut.held } := by
  induction bytes generalizing cut with
  | nil => rfl
  | cons b bytes ih =>
    rw [List.mem_cons, not_or] at h
    have hpush : cut.push (b :: bytes) = push { cut with held := b :: cut.held } bytes := by
      show (cut.pushByte b).push bytes = _
      rw [pushByte, if_neg (Ne.symm h.1)]
    rw [hpush, ih h.2, List.reverse_cons, List.append_assoc, List.singleton_append]

/-- The complete lines, and behind them what is held, are the lines that the bytes are split
into at the newlines. -/
theorem lines_append_held {held : Bytes} (h : Ascii.newline ∉ held) (bytes : Bytes) :
    (push { held } bytes).lines ++ [(push { held } bytes).held.reverse] =
      (held.reverse ++ bytes).splitOn Ascii.newline := by
  induction bytes generalizing held with
  | nil =>
    have hline : Ascii.newline ∉ held.reverse := fun hmem => h (List.mem_reverse.mp hmem)
    rw [List.append_nil, List.splitOn_eq_singleton hline]
    rfl
  | cons b bytes ih =>
    by_cases hb : b = Ascii.newline
    · have hline : Ascii.newline ∉ held.reverse := fun hmem => h (List.mem_reverse.mp hmem)
      have hpush : push { held } (b :: bytes) = push ⟨[held.reverse], []⟩ bytes := by
        show push (pushByte { held } b) bytes = _
        rw [pushByte, if_pos hb]
      rw [hpush, push_eq, hb, List.splitOn_append_cons_self_of_not_mem hline, lines,
        List.reverse_append, List.append_assoc]
      exact congrArg (held.reverse :: ·) (ih List.not_mem_nil)
    · have hpush : push { held } (b :: bytes) = push { held := b :: held } bytes := by
        show push (pushByte { held } b) bytes = _
        rw [pushByte, if_neg hb]
      have hnone : Ascii.newline ∉ b :: held := by
        rw [List.mem_cons, not_or]
        exact ⟨Ne.symm hb, h⟩
      rw [hpush, ih hnone, List.reverse_cons, List.append_assoc, List.singleton_append]

end LineCut
end KeyTable
