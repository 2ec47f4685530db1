import BasicCheck.Reachability
import BasicCheck.Proofs.Statement.Tree

/-!
# Executions of a body

Which statements can come next while a body is run. A position is what remains of the innermost block
together with the blocks around it (`Position`); an execution also knows where the calls of internal
subroutines that have not been returned from go on (`Execution`). One step runs one statement or ends
one block (`Step`). Conditions and selectors may come out as they like, so that every order of steps
that the text allows is an execution.
-/

namespace BasicCheck

/-- A label statement. -/
def Statement.isLabel : Statement → Bool
  | .action (.label _) _ => true
  | _ => false

namespace Reachability

/-! ## 1. Positions -/

/-- A block that is being run, with the statement that holds it and those behind that statement. -/
structure Frame where
  owner : Statement
  block : List Statement
  rest : List Statement

/-- What comes next. -/
structure Position where
  /-- What remains of the innermost block. -/
  here : List Statement
  /-- The blocks around it, the innermost first. -/
  outer : List Frame

/-- The positions in a body. -/
inductive Within (body : List Statement) : Position → Prop where
  | start : Within body ⟨body, []⟩
  | next {s : Statement} {rest : List Statement} {outer : List Frame}
      (h : Within body ⟨s :: rest, outer⟩) : Within body ⟨rest, outer⟩
  | enter {s : Statement} {rest block : List Statement} {outer : List Frame}
      (h : Within body ⟨s :: rest, outer⟩) (hblock : block ∈ s.blocks) :
      Within body ⟨block, ⟨s, block, rest⟩ :: outer⟩

/-- A position in a body where the label stands that a jump names. -/
def Marks (body : List Statement) (target : Ident) (p : Position) : Prop :=
  Within body p ∧ ∃ name span rest, p.here = .action (.label name) span :: rest ∧
    name.folded = target.folded

/-! ## 2. Steps -/

/-- What comes next, and where the calls that have not been returned from go on. -/
structure Execution where
  position : Position
  pending : List Position

/-- Statements behind which control may go on without running a block or a jump. -/
def passes : Statement → Bool
  | .action (.return _) _ | .action (.goto _) _ | .action (.gosub _) _ => false
  | .decision _ (some _) (some _) _ => false
  | _ => true

/-- One step of an execution. -/
inductive Step (body : List Statement) : Execution → Execution → Prop where
  | pass {s : Statement} {rest : List Statement} {outer : List Frame} {pending : List Position}
      (h : passes s = true) : Step body ⟨⟨s :: rest, outer⟩, pending⟩ ⟨⟨rest, outer⟩, pending⟩
  /-- An arm, a case or the body of a loop. -/
  | enter {s : Statement} {rest block : List Statement} {outer : List Frame}
      {pending : List Position} (h : block ∈ s.blocks) :
      Step body ⟨⟨s :: rest, outer⟩, pending⟩ ⟨⟨block, ⟨s, block, rest⟩ :: outer⟩, pending⟩
  | again {frame : Frame} {outer : List Frame} {pending : List Position}
      (h : frame.owner.isLoop = true) :
      Step body ⟨⟨[], frame :: outer⟩, pending⟩ ⟨⟨frame.block, frame :: outer⟩, pending⟩
  | close {frame : Frame} {outer : List Frame} {pending : List Position} :
      Step body ⟨⟨[], frame :: outer⟩, pending⟩ ⟨⟨frame.rest, outer⟩, pending⟩
  /-- The condition of the innermost loop around it. -/
  | leave {test : LoopTest} {cond : Expr} {span : Span} {rest : List Statement}
      {inner outer : List Frame} {frame : Frame} {pending : List Position}
      (hinner : ∀ f ∈ inner, f.owner.isLoop = false) (h : frame.owner.isLoop = true) :
      Step body ⟨⟨.action (.loopCondition test cond) span :: rest, inner ++ frame :: outer⟩, pending⟩
        ⟨⟨frame.rest, outer⟩, pending⟩
  | goto {target : Ident} {span : Span} {rest : List Statement} {outer : List Frame}
      {pending : List Position} {p : Position} (h : Marks body target p) :
      Step body ⟨⟨.action (.goto target) span :: rest, outer⟩, pending⟩ ⟨p, pending⟩
  | gosub {target : Ident} {span : Span} {rest : List Statement} {outer : List Frame}
      {pending : List Position} {p : Position} (h : Marks body target p) :
      Step body ⟨⟨.action (.gosub target) span :: rest, outer⟩, pending⟩
        ⟨p, ⟨rest, outer⟩ :: pending⟩
  | onGoto {selector : Expr} {targets : List Ident} {target : Ident} {span : Span}
      {rest : List Statement} {outer : List Frame} {pending : List Position} {p : Position}
      (htarget : target ∈ targets) (h : Marks body target p) :
      Step body ⟨⟨.action (.onJump .goto selector targets) span :: rest, outer⟩, pending⟩ ⟨p, pending⟩
  | onGosub {selector : Expr} {targets : List Ident} {target : Ident} {span : Span}
      {rest : List Statement} {outer : List Frame} {pending : List Position} {p : Position}
      (htarget : target ∈ targets) (h : Marks body target p) :
      Step body ⟨⟨.action (.onJump .gosub selector targets) span :: rest, outer⟩, pending⟩
        ⟨p, ⟨rest, outer⟩ :: pending⟩
  /-- Back to any call that has not been returned from. -/
  | return {value : Option Expr} {span : Span} {rest : List Statement} {outer : List Frame}
      {before after : List Position} {p : Position} :
      Step body ⟨⟨.action (.return value) span :: rest, outer⟩, before ++ p :: after⟩
        ⟨p, before ++ after⟩

/-- What an execution that starts at the first statement can come to. -/
inductive Reached (body : List Statement) : Execution → Prop where
  | start : Reached body ⟨⟨body, []⟩, []⟩
  | step {e e' : Execution} (h : Reached body e) (hstep : Step body e e') : Reached body e'

/-! ## 3. Labels -/

/-- Where all labels stand in the outermost block, jumps lead there. -/
theorem Within.outer_eq_nil {body : List Statement} {p : Position} (h : Within body p)
    (hlabels : ∀ s ∈ body, ∀ t ∈ s.within, t.isLabel = false) {s : Statement}
    (hs : s ∈ p.here) (hlabel : s.isLabel = true) : p.outer = [] := by
  have hplace : (p.outer = [] ∧ p.here ⊆ body) ∨ ∀ t ∈ Block.all p.here, t.isLabel = false := by
    clear hs
    induction h with
    | start => exact Or.inl ⟨rfl, List.Subset.refl _⟩
    | next h ih =>
      rcases ih with ⟨houter, hsub⟩ | hnone
      · exact Or.inl ⟨houter, fun t ht => hsub (List.mem_cons_of_mem _ ht)⟩
      · exact Or.inr fun t ht => hnone t (List.mem_cons_of_mem _ (List.mem_append_right _ ht))
    | @enter owner rest block outer h hblock ih =>
      refine Or.inr fun t ht => ?_
      have hwithin : t ∈ owner.within := by
        rw [Statement.within_eq]
        exact List.mem_flatMap.mpr ⟨block, hblock, ht⟩
      rcases ih with ⟨-, hsub⟩ | hnone
      · exact hlabels owner (hsub List.mem_cons_self) t hwithin
      · exact hnone t (List.mem_cons_of_mem _ (List.mem_append_left _ hwithin))
  rcases hplace with ⟨houter, -⟩ | hnone
  · exact houter
  · rw [hnone s (Block.mem_all_of_mem hs)] at hlabel
    cases hlabel

end Reachability

end BasicCheck
