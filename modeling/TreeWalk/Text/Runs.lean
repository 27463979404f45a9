/-! Classes of characters as runs of code points. -/
namespace TreeWalk.Text

/-- Looks a code point up in runs that are in increasing order, both ends included. -/
def inRuns (n : Nat) : List (Nat × Nat) → Bool
  | [] => false
  | (first, last) :: runs => first ≤ n && (n ≤ last || inRuns n runs)

end TreeWalk.Text
