/-! Character classes given as lists of closed code point ranges. -/

namespace TinyScript.Text

abbrev CodeRanges := List (Nat × Nat)

def CodeRanges.has (ranges : CodeRanges) (c : Char) : Bool :=
  ranges.any fun r => r.1 ≤ c.toNat && c.toNat ≤ r.2

theorem CodeRanges.has_iff (ranges : CodeRanges) (c : Char) :
    ranges.has c = true ↔ ∃ r ∈ ranges, r.1 ≤ c.toNat ∧ c.toNat ≤ r.2 := by
  simp only [has, List.any_eq_true, Bool.and_eq_true, decide_eq_true_eq]

end TinyScript.Text
