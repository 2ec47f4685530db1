import BasicCheck.Procedure

/-!
# Statements that are never reached

Behind a `return` or a `goto` the rest of a block is dead, up to the next label. One walk over the
body finds these statements and, on the way, every jump and every fall into a label; a search along
these edges from the start of the procedure then tells which labels can be reached
(`reachable`). Labels that cannot are dead too.
-/

namespace BasicCheck.Reachability

/-! ## 1. Jumps -/

/-- From which label control may pass to which; the start of the procedure is the empty name. -/
abbrev Edges := List (String × String)

/-- The labels that a statement jumps to. -/
def jumpTargets : Statement → List Ident
  | .action (.goto label) _ => [label]
  | .action (.gosub label) _ => [label]
  | .action (.onJump _ _ labels) _ => labels
  | _ => []

/-- Statements behind which a block does not go on. -/
def endsBlock : Statement → Bool
  | .action (.return _) _ => true
  | .action (.goto _) _ => true
  | _ => false

/-- Statements that may stand where nothing is reached. -/
def isHarmless : Statement → Bool
  | .action .finish _ => true
  | .action .empty _ => true
  | _ => false

/-! ## 2. The walk -/

/-- What a walk over statements finds. -/
structure Findings where
  edges : Edges
  /-- The statements behind a `return` or a `goto`. -/
  dead : List Statement

namespace Findings

def none : Findings := ⟨[], []⟩

def append (a b : Findings) : Findings := ⟨a.edges ++ b.edges, a.dead ++ b.dead⟩

instance : Append Findings := ⟨append⟩

end Findings

mutual

/-- The findings in the blocks of a statement that is reached under a given label. Every block is
    reached anew. -/
def inStatement (label : String) : Statement → Findings
  | .action _ _ => .none
  | .decision _ (some thenArm) (some elseArm) _ =>
    inBlock label true thenArm ++ inBlock label true elseArm
  | .decision _ (some arm) none _ => inBlock label true arm
  | .decision _ none (some arm) _ => inBlock label true arm
  | .decision _ none none _ => .none
  | .counted _ body _ _ => inBlock label true body
  | .loop body _ => inBlock label true body
  | .choice arms _ => inArms label arms

/-- The findings in the statements of a block, of which the first stands under a given label and is
    reached or not. -/
def inBlock (label : String) (reached : Bool) : List Statement → Findings
  | [] => .none
  | .action (.label name) _ :: rest =>
    ⟨if reached then [(label, name.folded)] else [], []⟩ ++ inBlock name.folded true rest
  | s :: rest =>
    if reached then
      ⟨(jumpTargets s).map fun target => (label, target.folded), []⟩ ++ inStatement label s ++
        inBlock label (!endsBlock s) rest
    else ⟨[], if isHarmless s then [] else [s]⟩ ++ inBlock label false rest

/-- The findings in the arms of a choice that is reached under a given label. -/
def inArms (label : String) : List CaseArm → Findings
  | [] => .none
  | .mk _ body _ :: rest => inBlock label true body ++ inArms label rest

end

/-! ## 3. The search -/

/-- The targets of the edges from a label. -/
def targetsOf (edges : Edges) (label : String) : List String :=
  (edges.filter (·.1 == label)).map (·.2)

/-- The edges that start at none of some labels. -/
def openEdges (edges : Edges) (visited : List String) : Edges :=
  edges.filter fun edge => !visited.contains edge.1

/-- A visited label closes its edges and opens none. -/
theorem openEdges_cons (edges : Edges) (label : String) (visited : List String)
    (h : label ∉ visited) :
    (openEdges edges (label :: visited)).length + (targetsOf edges label).length =
      (openEdges edges visited).length := by
  induction edges with
  | nil => rfl
  | cons edge rest ih =>
    simp only [openEdges, targetsOf, List.length_map] at ih ⊢
    by_cases hl : edge.1 = label
    · subst hl
      simp_all
      omega
    · by_cases hv : edge.1 ∈ visited
      · simp_all
      · simp_all
        omega

/-- The labels that have been visited once all pending ones have been followed up. -/
def search (edges : Edges) (visited pending : List String) : List String :=
  match pending with
  | [] => visited
  | label :: pending =>
    if _h : label ∈ visited then search edges visited pending
    else search edges (label :: visited) (targetsOf edges label ++ pending)
termination_by (openEdges edges visited).length + pending.length
decreasing_by
  · simp
  · have := openEdges_cons edges label visited _h
    simp only [List.length_append, List.length_cons]
    omega

/-- The labels that can be reached from the start of a procedure. -/
def reachable (edges : Edges) : List String := search edges [] [""]

end Reachability

/-! ## 4. The analysis -/

open Reachability in
/-- The statements of a procedure that are never reached, in the order of the text: those that
    follow a `return` or a `goto`, and the labels that nothing leads to. -/
def Procedure.unreachable (p : Procedure) : List Statement :=
  let found := inBlock "" true p.body
  let live := reachable found.edges
  let lost := p.symbols.symbols.toList.filterMap fun s =>
    if s.kind == .label && s.isDeclared && !live.contains (Text.fold s.name) then
      p.labelStatement? s.name
    else none
  (found.dead ++ lost).mergeSort fun a b => a.span.start ≤ b.span.start

end BasicCheck
