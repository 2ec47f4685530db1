/-!
# Sets of characters as tables of boundaries

A set of characters is written as the ascending list of the code points at which membership changes:
the first entry is the first member, the second the first non-member after it, and so on. A
character belongs to the set exactly when an odd number of boundaries lie at or below it, so
membership is one binary search (`rank`, `inside`).
-/

namespace BasicCheck.Text

/-- The position between `lo` and `hi` before which the entries of an ascending table are at most
    `n` and from which on they are greater. -/
def rank (table : Array Nat) (n lo hi : Nat) : Nat :=
  if lo < hi then
    if table.getD ((lo + hi) / 2) 0 ≤ n then rank table n ((lo + hi) / 2 + 1) hi
    else rank table n lo ((lo + hi) / 2)
  else lo
termination_by hi - lo

/-- A character is inside when the number of boundaries up to it is odd. -/
def inside (table : Array Nat) (c : Char) : Bool :=
  rank table c.toNat 0 table.size % 2 == 1

/-- The search ends within the part that it was given. -/
theorem rank_mem_range (table : Array Nat) (n lo hi : Nat) (h : lo ≤ hi) :
    lo ≤ rank table n lo hi ∧ rank table n lo hi ≤ hi := by
  fun_induction rank table n lo hi with
  | case1 lo hi hlt hle ih => have := ih (by omega); omega
  | case2 lo hi hlt hle ih => have := ih (by omega); omega
  | case3 lo hi hge => omega

/-- Nothing is inside an empty table. -/
theorem inside_empty (c : Char) : inside #[] c = false := by
  simp [inside, rank]

end BasicCheck.Text
