import BasicCheck.Reachability

/-!
# All statements of a tree

A block holds its statements, and these hold further ones (`Statement.within`, `Block.all`). The
statements of a tree are listed in the order in which they are written, each before those within it.
-/

namespace BasicCheck

mutual

/-- The statements within a statement, at every depth. -/
def Statement.within : Statement → List Statement
  | .action _ _ => []
  | .decision _ thenArm elseArm _ => allInArm thenArm ++ allInArm elseArm
  | .counted _ body _ _ => Block.all body
  | .loop body _ => Block.all body
  | .choice arms _ => allInArms arms

/-- The statements of an arm, at every depth. -/
def allInArm : Option (List Statement) → List Statement
  | none => []
  | some body => Block.all body

/-- The statements of a block, at every depth. -/
def Block.all : List Statement → List Statement
  | [] => []
  | s :: rest => s :: (s.within ++ Block.all rest)

/-- The statements of the arms of a choice, at every depth. -/
def allInArms : List CaseArm → List Statement
  | [] => []
  | .mk _ body _ :: rest => Block.all body ++ allInArms rest

end

theorem Block.all_append (a b : List Statement) : Block.all (a ++ b) = Block.all a ++ Block.all b := by
  induction a with
  | nil => rfl
  | cons s rest ih => simp [Block.all, ih]

theorem allInArms_eq_flatMap (arms : List CaseArm) :
    allInArms arms = arms.flatMap fun arm => Block.all arm.body := by
  induction arms with
  | nil => rfl
  | cons arm rest ih =>
    obtain ⟨cond, body, span⟩ := arm
    simp [allInArms, ih, CaseArm.body]

/-- What is within a statement is in one of its blocks. -/
theorem Statement.within_eq (s : Statement) : s.within = s.blocks.flatMap Block.all := by
  cases s with
  | action form span => rfl
  | decision test thenArm elseArm span =>
    cases thenArm <;> cases elseArm <;> simp [within, blocks, allInArm]
  | counted counter body closing span => simp [within, blocks]
  | loop body span => simp [within, blocks]
  | choice arms span => rw [within, allInArms_eq_flatMap, blocks, List.flatMap_map]

theorem Statement.sublist_within (s : Statement) {block : Block} (h : block ∈ s.blocks) :
    (Block.all block).Sublist s.within := by
  rw [within_eq, List.flatMap_def]
  exact List.sublist_flatten_of_mem (List.mem_map_of_mem h)

theorem Block.mem_all_of_mem {s : Statement} {body : List Statement} (h : s ∈ body) :
    s ∈ Block.all body := by
  induction body with
  | nil => exact h
  | cons t rest ih =>
    rcases List.mem_cons.mp h with rfl | h
    · exact List.mem_cons_self
    · exact List.mem_cons_of_mem _ (List.mem_append_right _ (ih h))

/-- Whatever stands in a block of a statement stands in the tree that the statement is in. -/
theorem Block.all_subset_of_mem_blocks {s : Statement} {body inner : Block} (hs : s ∈ body)
    (hinner : inner ∈ s.blocks) : Block.all inner ⊆ Block.all body := by
  induction body with
  | nil => cases hs
  | cons t rest ih =>
    intro u hu
    rw [Block.all]
    rcases List.mem_cons.mp hs with rfl | hs
    · refine List.mem_cons_of_mem _ (List.mem_append_left _ ?_)
      rw [Statement.within_eq]
      exact List.mem_flatMap.mpr ⟨inner, hinner, hu⟩
    · exact List.mem_cons_of_mem _ (List.mem_append_right _ (ih hs hu))

/-! ## Labels -/

/-- The labels that an action jumps to. -/
def Action.jumps (a : Action) : List Ident := Reachability.jumpTargets (.action a .blank)

theorem jumpTargets_action (a : Action) (span : Span) :
    Reachability.jumpTargets (.action a span) = a.jumps := by
  cases a <;> rfl

/-- The label that an action declares. -/
def Action.label? : Action → Option Ident
  | label name => some name
  | _ => none

/-- The label that a statement declares. -/
def Statement.label? : Statement → Option Ident
  | action form _ => form.label?
  | _ => none

/-- The labels that the statements of a tree declare, in their order. -/
def Block.labels (body : Block) : List Ident := (Block.all body).filterMap Statement.label?

/-! ## Loops -/

/-- Statements whose block may be run again. -/
def Statement.isLoop : Statement → Bool
  | .counted _ _ _ _ | .loop _ _ => true
  | _ => false

/-- A counting loop writes its variable. -/
def Statement.WritesCounter : Statement → Prop
  | .counted counter _ _ _ => counter.name.role = .assignment
  | _ => True

end BasicCheck
