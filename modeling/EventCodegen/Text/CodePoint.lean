/-! Tables of code points: membership in a sorted list of closed intervals. -/
namespace EventCodegen.Text

/-- Whether `n` lies in one of the closed intervals, which are given in increasing order. -/
def inRanges (n : Nat) : List (Nat × Nat) → Bool
  | [] => false
  | (low, high) :: rest => if n < low then false else n ≤ high || inRanges n rest

theorem inRanges_nil (n : Nat) : inRanges n [] = false := rfl

/-- A number below the first interval is in none of them. -/
theorem inRanges_lt {n low high : Nat} (rest : List (Nat × Nat)) (h : n < low) :
    inRanges n ((low, high) :: rest) = false := by simp [inRanges, h]

end EventCodegen.Text
