import Mathlib.Data.List.Nodup
import Mathlib.Data.List.Pairwise
import BasicCheck.Proofs.Reachability.Execution
import BasicCheck.Proofs.Reachability.Search

/-!
# What the walk for reachability has seen

The search finds all labels that edges lead to (`mem_reachable_of_edge`). What the walk over a body
says of a block that it comes to is part of what it says of the body: its edges are there, and of its
statements no others are dead (`Seen`). This goes over to what is behind the first statement of a block
(`Seen.behind`) and to the blocks of that statement (`Seen.block`), because no statement of a text
occurs twice in it.
-/

namespace BasicCheck.Reachability

/-! ## 1. The search -/

theorem start_mem_reachable (edges : Edges) : "" ∈ reachable edges :=
  mem_reachable_iff.mpr .refl

/-- **Edges lead from reached labels to reached labels.** -/
theorem mem_reachable_of_edge {edges : Edges} {a b : String} (h : (a, b) ∈ edges)
    (ha : a ∈ reachable edges) : b ∈ reachable edges :=
  mem_reachable_iff.mpr ((mem_reachable_iff.mp ha).tail h)

/-! ## 2. The walk -/

@[simp] theorem Findings.edges_append (a b : Findings) : (a ++ b).edges = a.edges ++ b.edges := rfl

@[simp] theorem Findings.dead_append (a b : Findings) : (a ++ b).dead = a.dead ++ b.dead := rfl

section Walk

variable {label : String} {reached : Bool} {s : Statement} {rest : List Statement}

theorem inBlock_cons_of_reached (hs : s.isLabel = false) : inBlock label true (s :: rest) =
    ⟨(jumpTargets s).map fun target => (label, target.folded), []⟩ ++ inStatement label s ++
      inBlock label (!endsBlock s) rest := by
  rw [inBlock]
  · rfl
  · rintro name span rfl
    cases hs

theorem inBlock_cons_of_not_reached (hs : s.isLabel = false) : inBlock label false (s :: rest) =
    ⟨[], if isHarmless s then [] else [s]⟩ ++ inBlock label false rest := by
  rw [inBlock]
  · rfl
  · rintro name span rfl
    cases hs

theorem exists_of_isLabel (hs : s.isLabel = true) : ∃ name span, s = .action (.label name) span := by
  unfold Statement.isLabel at hs
  split at hs
  · exact ⟨_, _, rfl⟩
  · cases hs

theorem inArms_eq (arms : List CaseArm) :
    (inArms label arms).edges =
        (arms.map CaseArm.body).flatMap (fun block => (inBlock label true block).edges) ∧
      (inArms label arms).dead =
        (arms.map CaseArm.body).flatMap fun block => (inBlock label true block).dead := by
  induction arms with
  | nil => exact ⟨rfl, rfl⟩
  | cons arm rest ih =>
    obtain ⟨cond, body, span⟩ := arm
    simp only [inArms, Findings.edges_append, Findings.dead_append, ih.1, ih.2]
    exact ⟨rfl, rfl⟩

/-- What is found in a statement is found in its blocks. -/
theorem inStatement_eq (s : Statement) :
    (inStatement label s).edges = s.blocks.flatMap (fun block => (inBlock label true block).edges) ∧
      (inStatement label s).dead =
        s.blocks.flatMap fun block => (inBlock label true block).dead := by
  cases s with
  | decision test thenArm elseArm span =>
    cases thenArm <;> cases elseArm <;>
      simp [inStatement, Statement.blocks, Findings.none]
  | choice arms span => exact inArms_eq arms
  | action form span => exact ⟨rfl, rfl⟩
  | _ => simp [inStatement, Statement.blocks]

mutual

theorem dead_inStatement (label : String) : ∀ (s : Statement), (inStatement label s).dead ⊆ s.within
  | .action form span => List.nil_subset _
  | .decision test none none span => List.nil_subset _
  | .decision test none (some arm) span => by
    exact dead_inBlock label true arm
  | .decision test (some arm) none span => by
    rw [Statement.within, allInArm, allInArm, List.append_nil]
    exact dead_inBlock label true arm
  | .decision test (some thenArm) (some elseArm) span => by
    have hthen := dead_inBlock label true thenArm
    have helse := dead_inBlock label true elseArm
    exact List.append_subset.mpr ⟨fun t ht => List.mem_append_left _ (hthen ht),
      fun t ht => List.mem_append_right _ (helse ht)⟩
  | .counted counter body closing span => dead_inBlock label true body
  | .loop body span => dead_inBlock label true body
  | .choice arms span => dead_inArms label arms

theorem dead_inBlock (label : String) (reached : Bool) : ∀ (body : List Statement),
    (inBlock label reached body).dead ⊆ Block.all body
  | [] => List.nil_subset _
  | s :: rest => by
    intro t ht
    -- a statement that is reached has dead ones within at most; one that is not may be dead itself
    by_cases hs : s.isLabel = true
    · obtain ⟨name, span, rfl⟩ := exists_of_isLabel hs
      have hrest := dead_inBlock name.folded true rest ht
      exact List.mem_cons_of_mem _ (List.mem_append_right _ hrest)
    · rw [Bool.not_eq_true] at hs
      cases reached with
      | true =>
        rw [inBlock_cons_of_reached hs] at ht
        rcases List.mem_append.mp ht with ht | ht
        · have hinner := dead_inStatement label s ht
          exact List.mem_cons_of_mem _ (List.mem_append_left _ hinner)
        · have hrest := dead_inBlock label (!endsBlock s) rest ht
          exact List.mem_cons_of_mem _ (List.mem_append_right _ hrest)
      | false =>
        rw [inBlock_cons_of_not_reached hs] at ht
        rcases List.mem_append.mp ht with ht | ht
        · split at ht
          · exact absurd ht List.not_mem_nil
          · exact List.mem_singleton.mp ht ▸ List.mem_cons_self
        · have hrest := dead_inBlock label false rest ht
          exact List.mem_cons_of_mem _ (List.mem_append_right _ hrest)

theorem dead_inArms (label : String) : ∀ (arms : List CaseArm), (inArms label arms).dead ⊆ allInArms arms
  | [] => List.nil_subset _
  | .mk cond body span :: rest => by
    have hbody := dead_inBlock label true body
    have hrest := dead_inArms label rest
    exact List.append_subset.mpr ⟨fun t ht => List.mem_append_left _ (hbody ht),
      fun t ht => List.mem_append_right _ (hrest ht)⟩

end

end Walk

/-! ## 3. Blocks that the walk has come to -/

variable {all : Findings} {label : String} {reached : Bool} {s : Statement}
  {here rest : List Statement}

/-- The walk has come to a block under a label, and what it has found there is part of all that it
    has found. -/
structure Seen (all : Findings) (label : String) (reached : Bool) (here : List Statement) : Prop where
  edges : (inBlock label reached here).edges ⊆ all.edges
  dead {t : Statement} : t ∈ Block.all here → t ∈ all.dead → t ∈ (inBlock label reached here).dead
  nodup : (Block.all here).Nodup

/-- **What the walk has found in a block stays apart from the rest**, in whatever part of a block. -/
theorem Seen.part {label' : String} {reached' : Bool} {part : List Statement}
    (h : Seen all label reached here) (hsub : (Block.all part).Sublist (Block.all here))
    (hedges : (inBlock label' reached' part).edges ⊆ (inBlock label reached here).edges)
    (hdead : ∀ t ∈ Block.all part, t ∈ (inBlock label reached here).dead →
      t ∈ (inBlock label' reached' part).dead) : Seen all label' reached' part where
  edges _ hedge := h.edges (hedges hedge)
  dead ht hdeadT := hdead _ ht (h.dead (hsub.subset ht) hdeadT)
  nodup := h.nodup.sublist hsub

theorem all_rest_sublist (s : Statement) (rest : List Statement) :
    (Block.all rest).Sublist (Block.all (s :: rest)) :=
  (List.sublist_append_right s.within _).cons s

/-- The statements of a block are not those behind it. -/
theorem Seen.apart (h : Seen all label reached (s :: rest)) :
    s ∉ s.within ∧ s ∉ Block.all rest ∧ s.within.Disjoint (Block.all rest) := by
  obtain ⟨hself, hnodup⟩ := List.nodup_cons.mp h.nodup
  obtain ⟨hwithin, hrest⟩ := not_or.mp fun hmem => hself (List.mem_append.mpr hmem)
  exact ⟨hwithin, hrest, (List.nodup_append'.mp hnodup).2.2⟩

theorem Seen.behind_label {name : Ident} {span : Span}
    (h : Seen all label reached (.action (.label name) span :: rest)) :
    Seen all name.folded true rest :=
  h.part (all_rest_sublist _ rest) (List.subset_append_right _ _) fun _ _ hdead => hdead

theorem Seen.behind (h : Seen all label true (s :: rest)) (hs : s.isLabel = false) :
    Seen all label (!endsBlock s) rest := by
  refine h.part (all_rest_sublist s rest) ?_ fun t ht hdead => ?_
  · rw [inBlock_cons_of_reached hs]
    exact List.subset_append_right _ _
  · rw [inBlock_cons_of_reached hs] at hdead
    rcases List.mem_append.mp hdead with hdead | hdead
    · exact absurd ht (h.apart.2.2 (dead_inStatement label s hdead))
    · exact hdead

theorem Seen.behind_dead (h : Seen all label false (s :: rest)) (hs : s.isLabel = false) :
    Seen all label false rest := by
  refine h.part (all_rest_sublist s rest) ?_ fun t ht hdead => ?_
  · rw [inBlock_cons_of_not_reached hs]
    exact List.subset_append_right _ _
  · rw [inBlock_cons_of_not_reached hs] at hdead
    rcases List.mem_append.mp hdead with hdead | hdead
    · split at hdead
      · exact absurd hdead List.not_mem_nil
      · rw [List.mem_singleton.mp hdead] at ht
        exact absurd ht h.apart.2.1
    · exact hdead

/-- Whether the first statement is reached or not, the walk comes to the ones behind it. -/
theorem Seen.exists_behind (h : Seen all label reached (s :: rest)) :
    ∃ label' reached', Seen all label' reached' rest := by
  by_cases hs : s.isLabel = true
  · obtain ⟨name, span, rfl⟩ := exists_of_isLabel hs
    exact ⟨_, _, h.behind_label⟩
  · rw [Bool.not_eq_true] at hs
    cases reached with
    | true => exact ⟨_, _, h.behind hs⟩
    | false => exact ⟨_, _, h.behind_dead hs⟩

/-- Two blocks of a statement are the same or have no statement in common. -/
theorem disjoint_blocks {a b : Block} (hnodup : s.within.Nodup) (ha : a ∈ s.blocks)
    (hb : b ∈ s.blocks) (hne : a ≠ b) : (Block.all a).Disjoint (Block.all b) := by
  rw [Statement.within_eq] at hnodup
  have hsymm : Std.Symm (Function.onFun List.Disjoint Block.all) :=
    ⟨fun _ _ h => List.disjoint_symm h⟩
  exact (List.nodup_flatMap.mp hnodup).2.forall ha hb hne

theorem Seen.block {block : List Statement} (h : Seen all label true (s :: rest))
    (hblock : block ∈ s.blocks) : Seen all label true block := by
  have hs : s.isLabel = false := by
    cases s with
    | action form span => exact absurd hblock List.not_mem_nil
    | _ => rfl
  have hwithin := s.sublist_within hblock
  have hinner : s.within.Sublist (Block.all (s :: rest)) :=
    (List.sublist_append_left _ _).cons s
  refine h.part (hwithin.trans hinner) ?_ fun t ht hdead => ?_
  · rw [inBlock_cons_of_reached hs, Findings.edges_append, Findings.edges_append,
      (inStatement_eq s).1]
    intro edge hedge
    refine List.mem_append_left _ (List.mem_append_right _ ?_)
    exact List.mem_flatMap.mpr ⟨block, hblock, hedge⟩
  · have ht' := hwithin.subset ht
    rw [inBlock_cons_of_reached hs, Findings.dead_append, Findings.dead_append,
      (inStatement_eq s).2] at hdead
    rcases List.mem_append.mp hdead with hdead | hdead
    · obtain ⟨other, hother, hdead⟩ := List.mem_flatMap.mp hdead
      by_cases heq : block = other
      · exact heq ▸ hdead
      · have hapart := disjoint_blocks (h.nodup.sublist hinner) hblock hother heq
        exact absurd (dead_inBlock label true other hdead) (hapart ht)
    · exact absurd (dead_inBlock _ _ rest hdead) (h.apart.2.2 ht')

end BasicCheck.Reachability
