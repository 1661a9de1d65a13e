/-!
# Tables of code point ranges

A property of characters is written as the list of the closed ranges of code points that have it.
-/

namespace PromptChain.Text

/-- Whether a code point lies in one of the closed ranges of a table. -/
def inRanges (table : List (Nat × Nat)) (point : Nat) : Bool :=
  table.any fun range => range.1 ≤ point && point ≤ range.2

theorem inRanges_eq_true_iff {table : List (Nat × Nat)} {point : Nat} :
    inRanges table point = true ↔ ∃ range ∈ table, range.1 ≤ point ∧ point ≤ range.2 := by
  simp [inRanges]

end PromptChain.Text
