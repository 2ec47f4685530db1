import BasicCheck.Proofs.Assignment.Exact
import BasicCheck.Proofs.Label

/-!
# Findings are reads

Whatever the walk over a block finds is a read that one of the statements makes, or it has been
found behind a `gosub` (**`reads_walk`**), where the statements are again those of the body. So
every finding of the analysis is a read of a statement of the procedure
(**`Procedure.reads_walk_body`**), whatever the procedure is made of, and never one of its own variable
that a counting loop makes.
-/

namespace BasicCheck

namespace Assignment

/-- Findings that are reads of some statements, none of a variable that the same statement counts
    with. -/
def Reads (statements : List Statement) (found : List Finding) : Prop :=
  ∀ f ∈ found, f.statement ∈ statements ∧ f.ident ∈ f.statement.referenced ∧
    f.ident.folded ∉ knownAt ∅ f.statement

namespace Reads

variable {statements : List Statement} {a b : List Finding}

theorem nil : Reads statements [] := nofun

theorem append (ha : Reads statements a) (hb : Reads statements b) : Reads statements (a ++ b) :=
  fun f hf => (List.mem_append.mp hf).elim (ha f) (hb f)

end Reads

theorem reads_readsOf {statements : List Statement} {s : Statement} (seeds known : NameSet)
    (hs : s ∈ statements) : Reads statements (readsOf seeds (knownAt known s) s) := by
  intro f hf
  obtain ⟨⟨hident, rfl⟩, hfree⟩ := mem_readsOf.mp hf
  exact ⟨hs, hident, (notMem_knownAt.mp (isDefined_eq_false.mp hfree).1).2⟩

section Walk

variable {statements : List Statement} (seeds : NameSet)
  {gosub : String → NameSet → NameSet × List Finding}

mutual

theorem reads_effect (hgosub : ∀ name known, Reads statements (gosub name known).2)
    (known : NameSet) : ∀ s : Statement, s.within ⊆ statements →
    Reads statements (effect seeds gosub known s).2
  | .action form span => by
    intro _
    cases form with
    | gosub name => exact hgosub name.name known
    | onJump jump selector labels =>
      cases jump with
      | goto => exact Reads.nil
      | gosub =>
        intro f hf
        obtain ⟨name, -, hname⟩ := List.mem_flatMap.mp hf
        exact hgosub name.name known f hname
    | _ => exact Reads.nil
  | .decision test thenArm elseArm span => by
    intro h
    rw [Statement.within, List.append_subset] at h
    exact (reads_walkArm hgosub known thenArm h.1).append (reads_walkArm hgosub known elseArm h.2)
  | .counted counter body closing span => fun h => reads_walk hgosub false known body h
  | .loop body span => fun h => reads_walk hgosub false known body h
  | .choice arms span => fun h => reads_findingsInArms hgosub known arms h

theorem reads_walkArm (hgosub : ∀ name known, Reads statements (gosub name known).2)
    (known : NameSet) : ∀ arm : Option (List Statement),
    allInArm arm ⊆ statements → Reads statements (walkArm seeds gosub known arm).findings
  | none => fun _ => Reads.nil
  | some body => fun h => reads_walk hgosub false known body h

/-- **Whatever a walk finds is a read.** -/
theorem reads_walk (hgosub : ∀ name known, Reads statements (gosub name known).2)
    (stopsAtReturn : Bool) (known : NameSet) : ∀ body : List Statement,
    Block.all body ⊆ statements →
      Reads statements (walk seeds gosub stopsAtReturn known body).findings
  | [] => fun _ => Reads.nil
  | s :: rest => by
    intro h
    rw [Block.all, List.cons_subset, List.append_subset] at h
    obtain ⟨hs, hwithin, hrest⟩ := h
    have hown := reads_readsOf seeds known hs
    have hinner := reads_effect hgosub (knownAt known s ∪ addAll s.assigned ∅) s hwithin
    rw [walk]
    generalize effect seeds gosub (knownAt known s ∪ addAll s.assigned ∅) s = done at hinner ⊢
    obtain ⟨outcome, inner⟩ := done
    cases outcome with
    | goesOn proven => exact (hown.append hinner).append (reads_walk hgosub _ _ rest hrest)
    | returns =>
      dsimp only
      split
      · exact hown.append hinner
      · exact (hown.append hinner).append (reads_walk hgosub _ _ rest hrest)
    | armsReturn => exact hown.append hinner

theorem reads_findingsInArms
    (hgosub : ∀ name known, Reads statements (gosub name known).2)
    (known : NameSet) : ∀ arms : List CaseArm,
    allInArms arms ⊆ statements → Reads statements (findingsInArms seeds gosub known arms)
  | [] => fun _ => Reads.nil
  | .mk cond body span :: rest => by
    intro h
    rw [allInArms, List.append_subset] at h
    exact (reads_walk hgosub false known body h.1).append
      (reads_findingsInArms hgosub known rest h.2)

end

end Walk

/-- What follows a label stands in the body. -/
theorem all_subset_of_afterLabel? {p : Procedure} {label : String} {body : Block}
    (h : p.afterLabel? label = some body) : Block.all body ⊆ Block.all p.body := by
  simp only [Procedure.afterLabel?, Option.bind_eq_bind, Option.bind_eq_some_iff] at h
  obtain ⟨location, -, block, hblock, hdrop⟩ := h
  cases hdrop
  refine List.Subset.trans (fun s hs => ?_) (Block.all_subset_of_enter? hblock)
  rw [← List.take_append_drop (location.index + 1) block, Block.all_append]
  exact List.mem_append_right _ hs

/-- A subroutine is a part of the body, so what is found in it is a read of the body. -/
theorem reads_gosubFlow (p : Procedure) (seeds : NameSet) (idle : List String) (name : String)
    (known : NameSet) : Reads (Block.all p.body) (gosubFlow p seeds idle name known).2 := by
  rw [gosubFlow]
  by_cases hidle : Text.fold name ∈ idle
  · rw [dif_pos hidle]
    cases hbody : p.afterLabel? name with
    | none => exact Reads.nil
    | some body =>
      exact reads_walk seeds (reads_gosubFlow p seeds (idle.erase (Text.fold name))) true known body
        (all_subset_of_afterLabel? hbody)
  · rw [dif_neg hidle]
    exact Reads.nil
termination_by idle.length
decreasing_by
  rw [List.length_erase_of_mem hidle]
  have := List.length_pos_of_mem hidle
  omega

end Assignment

open Assignment in
/-- **What the analysis of a procedure walks over and finds are reads of its statements.** -/
theorem Procedure.reads_walk_body (p : Procedure) : Reads (Block.all p.body)
    (walk (seedsOf p) (gosubFlow p (seedsOf p) p.labels.names) false ∅ p.body).findings :=
  reads_walk _ (reads_gosubFlow p _ _) false ∅ p.body (List.Subset.refl _)

end BasicCheck
