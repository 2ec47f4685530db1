import BasicCheck.Proofs.Assignment.Read
import BasicCheck.Proofs.Assignment.Unassigned

/-!
# Reads of counting loops

The walk gives the variable of a counting loop a value before it looks at any read of the statement,
since the `next` reads it behind an assignment (`knownAt`). The bounds are read before that assignment.
In a text without labels and jumps the analysis is exact for what counting loops read, but it never
finds the variable of the loop itself (**`Procedure.mem_unassigned_counted_iff`**), not even where no
path has assigned it (`Procedure.exists_start_not_found`).
-/

namespace BasicCheck

open Assignment

namespace Assignment

/-- What the bounds read is exposed where the loop is what runs first. -/
theorem exposes_bounds {counter : Counter} {ident : Ident} (body : List Statement)
    (closing : Option Ident) (span : Span)
    (hident : ident ∈ counter.expressions.flatMap Expr.idents)
    (hrole : ident.role = .reference) :
    (blockPaths [.counted counter body closing span]).Exposes
      ⟨ident, .counted counter body closing span⟩ := by
  have hread : ident ∈ (counter.expressions.flatMap Expr.idents).filter (·.role == .reference) :=
    List.mem_filter.mpr ⟨hident, beq_iff_eq.mpr hrole⟩
  have hfirst : Exposed (eventsOf (.counted counter body closing span))
      ⟨ident, .counted counter body closing span⟩ := by
    unfold eventsOf
    exact exposed_append.mpr (.inl (exposed_readsBy.mpr ⟨hread, rfl⟩))
  have hturns : (Paths.repeated (blockPaths body)).Alive := Paths.goesOn_repeated.alive
  refine (Paths.exposes_andThen Paths.alive_once).mpr (.inl ?_)
  exact (Paths.exposes_andThen hturns).mpr (.inl (Paths.exposes_once.mpr hfirst))

end Assignment

namespace Procedure

variable (source : String) (file : Nat)

/-- Nothing is lost when findings at the same place are dropped. -/
theorem mem_unassigned {r : Assignment.Finding} : r ∈ (ofText source file).unassigned ↔
    r ∈ (walk (seedsOf (ofText source file)) (gosubFlow (ofText source file)
      (seedsOf (ofText source file)) (ofText source file).labels.names) false ∅
      (ofText source file).body).findings := by
  have hreads := (ofText source file).reads_walk_body
  unfold unassigned
  rw [List.mem_mergeSort, mem_eraseDupsBy]
  intro a ha b hb hspan
  obtain ⟨hstatement, hident, -⟩ := hreads a ha
  obtain ⟨hstatement', hident', -⟩ := hreads b hb
  exact eq_of_span_eq (nodup_idents source file) ⟨hstatement, hident⟩ ⟨hstatement', hident'⟩
    (eq_of_beq hspan)

/-- **No counting loop is found to read its own variable.** -/
theorem ne_counter_of_mem_unassigned {counter : Counter} {body : Block} {closing : Option Ident}
    {span : Span} {ident : Ident}
    (h : ⟨ident, .counted counter body closing span⟩ ∈ (ofText source file).unassigned) :
    ident.folded ≠ counter.name.folded := by
  obtain ⟨-, -, hfree⟩ := (ofText source file).reads_walk_body _ ((mem_unassigned source file).mp h)
  intro hname
  exact hfree (Std.ExtTreeSet.mem_insert.mpr (.inl (Std.LawfulEqCmp.compare_eq_iff_eq.mpr hname.symm)))

/-- **What a counting loop reads**: a read that some path reaches is found if and only if some path
    makes it without having assigned its variable before, the variable has no value from the start, and
    it is not the one that the loop counts with. -/
theorem mem_unassigned_counted_iff {counter : Counter} {body : Block} {closing : Option Ident}
    {span : Span} {ident : Ident}
    (hjumpFree : ∀ s ∈ Block.all (ofText source file).body, s.isJumpFree = true)
    (hreached : (blockPaths (ofText source file).body).Reaches
      ⟨ident, .counted counter body closing span⟩) :
    ⟨ident, .counted counter body closing span⟩ ∈ (ofText source file).unassigned ↔
      ident.folded ≠ counter.name.folded ∧
        (blockPaths (ofText source file).body).Exposes ⟨ident, .counted counter body closing span⟩ ∧
        ¬ Seeded (ofText source file) ident.folded := by
  have hfree : JumpFree (Block.all (ofText source file).body) :=
    ⟨fun hs => hjumpFree _ hs, fun hs => writesCounter source file _ hs, nodup_all source file⟩
  obtain ⟨hwalk, -⟩ := faithful_walk (seedsOf (ofText source file))
    (gosubFlow (ofText source file) (seedsOf (ofText source file)) (ofText source file).labels.names)
    ∅ (ofText source file).body hfree
  by_cases hname : ident.folded = counter.name.folded
  · exact iff_of_false (fun h => ne_counter_of_mem_unassigned source file h hname) fun h => h.1 hname
  · rw [mem_unassigned, hwalk.found_iff hreached fun hown => hname hown.2, isDefined_seedsOf]
    exact (and_iff_right hname).symm

/-- A counting loop, alone in its block, that starts at the value of a variable. -/
def startsAt (holds : Counter → Ident → Bool) : Block → Bool
  | [.counted ⟨name, .variable ident, limit, step⟩ _ _ _] =>
    ident.role == .reference && holds ⟨name, .variable ident, limit, step⟩ ident
  | _ => false

theorem exists_of_startsAt (holds : Counter → Ident → Bool) (block : Block)
    (h : startsAt holds block = true) : ∃ counter body closing span ident,
      block = [.counted counter body closing span] ∧ counter.start = .variable ident ∧
        ident.role = .reference ∧ holds counter ident = true := by
  unfold startsAt at h
  split at h
  · obtain ⟨hrole, hholds⟩ := Bool.and_eq_true_iff.mp h
    exact ⟨_, _, _, _, _, rfl, rfl, eq_of_beq hrole, hholds⟩
  · cases h

/-- The start value of a loop is read when the loop is reached. -/
theorem mem_unassigned_counted_iff_start : ∃ counter body closing span ident,
    counter.start = .variable ident ∧
      (⟨ident, .counted counter body closing span⟩ ∈
          (ofText "for i = x to 3\nnext i\n" 0).unassigned ↔
        ident.folded ≠ counter.name.folded ∧
          (blockPaths (ofText "for i = x to 3\nnext i\n" 0).body).Exposes
            ⟨ident, .counted counter body closing span⟩ ∧
          ¬ Seeded (ofText "for i = x to 3\nnext i\n" 0) ident.folded) := by
  have hjumpFree : ∀ s ∈ Block.all (ofText "for i = x to 3\nnext i\n" 0).body,
      s.isJumpFree = true := List.all_eq_true.mp (by decide +kernel)
  obtain ⟨counter, body, closing, span, ident, hbody, hstart, hrole, -⟩ := exists_of_startsAt
    (fun _ _ => true) (ofText "for i = x to 3\nnext i\n" 0).body (by decide +kernel)
  have hident : ident ∈ counter.expressions.flatMap Expr.idents := by
    rw [Counter.expressions, List.flatMap_cons, hstart]
    exact List.mem_cons_self
  have hreached := (exposes_bounds body closing span hident hrole).reaches
  rw [← hbody] at hreached
  exact ⟨counter, body, closing, span, ident, hstart,
    mem_unassigned_counted_iff _ _ hjumpFree hreached⟩

/-- Not all that a loop starts at is found: in `for i = i to 3` the variable has no value when the loop
    is reached. -/
theorem exists_start_not_found : ¬ ∀ (source : String) (file : Nat) (counter : Counter) (body : Block)
    (closing : Option Ident) (span : Span) (ident : Ident),
    (ofText source file).hasErrors = false →
    (∀ s ∈ Block.all (ofText source file).body, s.isJumpFree = true) →
    ident ∈ counter.start.idents → ident.role = .reference → ident.folded = counter.name.folded →
    (blockPaths (ofText source file).body).Exposes ⟨ident, .counted counter body closing span⟩ →
    ¬ Seeded (ofText source file) ident.folded →
    ⟨ident, .counted counter body closing span⟩ ∈ (ofText source file).unassigned := by
  intro hall
  obtain ⟨counter, body, closing, span, ident, hbody, hstart, hrole, hholds⟩ := exists_of_startsAt
    (fun counter ident => ident.folded == counter.name.folded &&
      !isDefined (seedsOf (ofText "for i = i to 3\nnext i\n" 0)) ∅ ident)
    (ofText "for i = i to 3\nnext i\n" 0).body (by decide +kernel)
  obtain ⟨hname, hfree⟩ := Bool.and_eq_true_iff.mp hholds
  rw [Bool.not_eq_true'] at hfree
  have hown : ident ∈ counter.start.idents := by
    rw [hstart]
    exact List.mem_cons_self
  have hexposed := exposes_bounds body closing span
    (List.mem_flatMap.mpr ⟨counter.start, List.mem_cons_self, hown⟩) hrole
  rw [← hbody] at hexposed
  have hfound := hall "for i = i to 3\nnext i\n" 0 counter body closing span ident
    (by decide +kernel) (List.all_eq_true.mp (by decide +kernel)) hown hrole (eq_of_beq hname)
    hexposed (isDefined_seedsOf.mp hfree)
  exact ne_counter_of_mem_unassigned _ _ hfound (eq_of_beq hname)

end Procedure

end BasicCheck
