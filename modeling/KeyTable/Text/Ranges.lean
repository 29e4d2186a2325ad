/-!
# Tables of characters

A set of code points, written as a list of ranges with both ends included.  The
ranges of a table are *ascending*, so a search can stop at the first range that
begins behind the code point; `inRanges_iff` says that it misses nothing.
-/

namespace KeyTable
namespace Text

/-- Is a code point in one of these ascending ranges? -/
def inRanges : List (Nat × Nat) → Nat → Bool
  | [], _ => false
  | (low, high) :: rest, n => low ≤ n && (n ≤ high || inRanges rest n)

/-- Is no range empty, and does each of them end before the next begins? -/
def areAscending : List (Nat × Nat) → Bool
  | [] => true
  | [(low, high)] => low ≤ high
  | (low, high) :: next :: rest => low ≤ high && high < next.1 && areAscending (next :: rest)

/-- The tail of ascending ranges is ascending, and lies behind the first of them. -/
theorem areAscending_cons {low high : Nat} {rest : List (Nat × Nat)}
    (h : areAscending ((low, high) :: rest) = true) :
    areAscending rest = true ∧ ∀ range ∈ rest, low ≤ range.1 := by
  induction rest generalizing low high with
  | nil => exact ⟨rfl, by simp⟩
  | cons next rest ih =>
    obtain ⟨first, last⟩ := next
    simp only [areAscending, Bool.and_eq_true, decide_eq_true_eq] at h
    refine ⟨h.2, ?_⟩
    intro range hrange
    rcases List.mem_cons.mp hrange with rfl | hmem
    · show low ≤ first
      omega
    · have := (ih h.2).2 range hmem
      omega

/-- A search through ascending ranges finds every code point that is in one. -/
theorem inRanges_iff {ranges : List (Nat × Nat)} (h : areAscending ranges = true) (n : Nat) :
    inRanges ranges n = true ↔ ∃ range ∈ ranges, range.1 ≤ n ∧ n ≤ range.2 := by
  induction ranges with
  | nil => simp [inRanges]
  | cons range rest ih =>
    obtain ⟨low, high⟩ := range
    obtain ⟨hrest, hbehind⟩ := areAscending_cons h
    simp only [inRanges, Bool.and_eq_true, Bool.or_eq_true, decide_eq_true_eq, ih hrest,
      List.mem_cons, exists_eq_or_imp]
    constructor
    · rintro ⟨hlow, hhigh | hmem⟩
      · exact Or.inl ⟨hlow, hhigh⟩
      · exact Or.inr hmem
    · rintro (⟨hlow, hhigh⟩ | ⟨range, hmem, hlow, hhigh⟩)
      · exact ⟨hlow, Or.inl hhigh⟩
      · exact ⟨Nat.le_trans (hbehind range hmem) hlow, Or.inr ⟨range, hmem, hlow, hhigh⟩⟩

end Text
end KeyTable
