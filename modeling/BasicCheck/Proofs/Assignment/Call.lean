import Mathlib.Logic.Relation
import BasicCheck.Proofs.Assignment.Exact
import BasicCheck.Proofs.Reachability.Execution

/-!
# Paths through calls

What can happen when statements are run that call internal subroutines: paths as before, in which a
`gosub` stands for a path through the call (`blockRuns`). A call runs what stands behind its label
and is ended by the first `return` that it comes to, at whatever depth; so its paths are known from
those of the calls that it makes, which nest less deep (`callPaths`).

The walk takes a call to be ended where a list is certainly left (`upToReturn`). Whether a
subroutine can also be left before that is read off its statements (`Prompt`).
-/

namespace BasicCheck

/-! ## 1. Jumps and returns -/

/-- A jump that does not come back. -/
def Statement.isGoto : Statement → Bool
  | .action (.goto _) _ | .action (.onJump .goto _ _) _ => true
  | _ => false

def Statement.isReturn : Statement → Bool
  | .action (.return _) _ => true
  | _ => false

mutual

/-- Statements that always return: a `return`, or two arms that both do. -/
def Statement.returns : Statement → Bool
  | .action (.return _) _ => true
  | .decision _ thenArm elseArm _ => armReturns thenArm && armReturns elseArm
  | _ => false

/-- An arm that is missing is passed. -/
def armReturns : Option (List Statement) → Bool
  | none => false
  | some body => blockReturns body

/-- A block returns if one of its statements always does. -/
def blockReturns : List Statement → Bool
  | [] => false
  | s :: rest => s.returns || blockReturns rest

end

theorem Statement.isReturn_eq_false {s : Statement} (h : s.returns = false) :
    s.isReturn = false := by
  unfold isReturn
  split
  · cases h
  · rfl

namespace Assignment

/-- The statements of a list up to the first one that always returns. -/
def upToReturn : List Statement → List Statement
  | [] => []
  | s :: rest => if s.returns then [s] else s :: upToReturn rest

theorem exists_append_upToReturn (body : List Statement) :
    ∃ more, body = upToReturn body ++ more := by
  induction body with
  | nil => exact ⟨[], rfl⟩
  | cons s rest ih =>
    obtain ⟨more, hmore⟩ := ih
    unfold upToReturn
    split
    · exact ⟨rest, rfl⟩
    · exact ⟨more, congrArg (s :: ·) hmore⟩

/-- There is no `return` on the way to the first statement that always returns. -/
def Prompt (rest : Block) : Prop :=
  ∀ s ∈ upToReturn rest, s.returns = true ∨ ∀ t ∈ s.within, t.isReturn = false

/-! ## 2. Paths -/

section Runs

variable (call : String → Paths)

mutual

/-- The paths through the blocks of a statement and the calls that it makes. A jump that does not
    come back may do anything. -/
def innerRuns : Statement → Paths
  | .action (.return _) _ => .once [] .returned
  | .action (.loopCondition _ _) _ => .either (.once [] .on) (.once [] .left)
  | .action (.gosub target) _ => call target.folded
  | .action (.onJump .gosub _ targets) _ =>
    .either (.once [] .on) fun path exit => ∃ target ∈ targets, call target.folded path exit
  | .action (.goto _) _ | .action (.onJump .goto _ _) _ => fun _ _ => True
  | .action _ _ => .once [] .on
  | .decision _ thenArm elseArm _ => .either (armRuns thenArm) (armRuns elseArm)
  | .counted _ body _ _ => .repeated (blockRuns body)
  | .loop body _ => .repeated (blockRuns body)
  | .choice arms _ => caseRuns arms

/-- The paths through an arm. -/
def armRuns : Option (List Statement) → Paths
  | none => .once [] .on
  | some body => blockRuns body

/-- The paths through a block. -/
def blockRuns : List Statement → Paths
  | [] => .once [] .on
  | s :: rest => .andThen (.andThen (.once (eventsOf s) .on) (innerRuns s)) (blockRuns rest)

/-- The paths through one arm of a choice, or through none. -/
def caseRuns : List CaseArm → Paths
  | [] => .once [] .on
  | .mk _ body _ :: rest => .either (blockRuns body) (caseRuns rest)

end

end Runs

/-- What stands behind a label of the outermost block. -/
def Behind (body : Block) (name : String) (rest : Block) : Prop :=
  ∃ before label span, body = before ++ .action (.label label) span :: rest ∧ label.folded = name

/-- The paths through a call, in which calls nest less deep than a given number. -/
def callPaths (body : Block) : Nat → String → Paths
  | 0, _ => fun _ _ => False
  | depth + 1, name => fun path exit => exit = .on ∧
    ∃ rest, Behind body name rest ∧ blockRuns (callPaths body depth) rest path .returned

/-- A path from a label to a `return` that ends the call. -/
def CallPath (body : Block) (name : String) (path : List Event) : Prop :=
  ∃ depth, callPaths body depth name path .on

/-- One subroutine calls another before it has certainly returned. -/
def Calls (body : Block) (name other : String) : Prop :=
  ∃ rest, Behind body name rest ∧ ∃ s ∈ Block.all (upToReturn rest),
    ∃ target ∈ Reachability.jumpTargets s, target.folded = other

/-- A subroutine, and those that are called on the way, come to no `return` before the one that they
    always come to. -/
def PromptCall (body : Block) (name : String) : Prop :=
  ∀ other, Relation.ReflTransGen (Calls body) name other →
    ∀ rest, Behind body other rest → Prompt rest

/-! ## 3. What the walk keeps -/

/-- What is said to return never goes on, and what is kept is assigned on every path that does. -/
structure Flow.Sound (flow : Flow) (P : Paths) : Prop where
  ends : flow.returns = true → ¬ P.GoesOn
  assigns : ∀ name ∈ flow.assigned, P.Assigns name

/-- The same of what a statement does to the walk over its block. -/
def Outcome.Sound (outcome : Outcome) (P : Paths) : Prop :=
  match outcome with
  | .goesOn proven => ∀ name ∈ proven, P.Assigns name
  | .returns | .armsReturn => ¬ P.GoesOn

variable {P Q : Paths} {thenFlow elseFlow : Flow} {seeds : NameSet}
  {gosub : String → NameSet → NameSet × List Finding} {call : String → Paths} {known : NameSet}

theorem assigns_of_not_goesOn (h : ¬ P.GoesOn) (name : String) : P.Assigns name :=
  fun path hpath => absurd ⟨path, hpath⟩ h

/-- Where nothing is kept, nothing is wrong. -/
theorem Outcome.sound_goesOn_empty (P : Paths) : Outcome.Sound (.goesOn ∅) P :=
  fun _ hname => absurd hname Std.ExtTreeSet.not_mem_empty

theorem Flow.sound_pass (P : Paths) : Flow.Sound ⟨∅, false, []⟩ P where
  ends h := nomatch h
  assigns _ hname := absurd hname Std.ExtTreeSet.not_mem_empty

/-- **Two arms.** -/
theorem Flow.Sound.outcomeOf (hthen : thenFlow.Sound P) (helse : elseFlow.Sound Q) :
    (outcomeOf thenFlow elseFlow).Sound (P.either Q) := by
  unfold Assignment.outcomeOf
  cases hleft : thenFlow.returns <;> cases hright : elseFlow.returns
  · intro name hname
    obtain ⟨hmem, hmem'⟩ := Std.ExtTreeSet.mem_inter_iff.mp hname
    exact Paths.assigns_either.mpr ⟨hthen.assigns name hmem, helse.assigns name hmem'⟩
  · intro name hname
    have hdead := assigns_of_not_goesOn (helse.ends hright) name
    exact Paths.assigns_either.mpr ⟨hthen.assigns name hname, hdead⟩
  · intro name hname
    have hdead := assigns_of_not_goesOn (hthen.ends hleft) name
    exact Paths.assigns_either.mpr ⟨hdead, helse.assigns name hname⟩
  · intro hon
    rcases Paths.goesOn_either.mp hon with hon | hon
    · exact hthen.ends hleft hon
    · exact helse.ends hright hon

/-- Statements without jumps that do not come back, whose calls assign what they are said to. -/
structure Tame (gosub : String → NameSet → NameSet × List Finding) (call : String → Paths)
    (statements : List Statement) : Prop where
  stays : ∀ s ∈ statements, s.isGoto = false
  calls : ∀ s ∈ statements, ∀ target ∈ Reachability.jumpTargets s, ∀ known,
    ∀ name ∈ (gosub target.name known).1, (call target.folded).Assigns name

theorem Tame.mono {a b : List Statement} (h : Tame gosub call b) (hsub : a ⊆ b) :
    Tame gosub call a where
  stays s hs := h.stays s (hsub hs)
  calls s hs := h.calls s (hsub hs)

/-- A statement makes its assignments on every path through it. -/
theorem assign_mem_eventsOf_of_mem {s : Statement} {name : String} (h : name ∈ s.assigned) :
    .assign name ∈ eventsOf s := by
  have hmem : Event.assign name ∈ s.assigned.map Event.assign := List.mem_map_of_mem h
  cases s with
  | counted counter body closing span =>
    unfold eventsOf
    simp only [List.mem_append, List.mem_cons]
    exact Or.inr (Or.inr (Or.inr hmem))
  | _ => exact List.mem_append_right _ hmem

mutual

theorem sound_effect (known : NameSet) : ∀ (s : Statement), Tame gosub call (s :: s.within) →
    (effect seeds gosub known s).1.Sound (innerRuns call s)
  | .action form span, htame => by
    cases form with
    | gosub target =>
      intro name hname
      exact htame.calls _ List.mem_cons_self target List.mem_cons_self known name hname
    | «return» value =>
      rintro ⟨path, -, hexit⟩
      cases hexit
    | onJump jump selector targets =>
      cases jump with
      | goto => exact Outcome.sound_goesOn_empty _
      | gosub => exact Outcome.sound_goesOn_empty _
    | _ => exact Outcome.sound_goesOn_empty _
  | .decision test thenArm elseArm span, htame => by
    have hthen := sound_arm known thenArm
      (htame.mono fun s hs => List.mem_cons_of_mem _ (List.mem_append_left _ hs))
    have helse := sound_arm known elseArm
      (htame.mono fun s hs => List.mem_cons_of_mem _ (List.mem_append_right _ hs))
    exact hthen.outcomeOf helse
  | .counted counter body closing span, _ => Outcome.sound_goesOn_empty _
  | .loop body span, _ => Outcome.sound_goesOn_empty _
  | .choice arms span, _ => Outcome.sound_goesOn_empty _

theorem sound_arm (known : NameSet) : ∀ (arm : Option (List Statement)),
    Tame gosub call (allInArm arm) → (walkArm seeds gosub known arm).Sound (armRuns call arm)
  | none, _ => Flow.sound_pass _
  | some body, htame => sound_walk known body htame

/-- **The walk over a block keeps only what is assigned on every path behind it.** -/
theorem sound_walk (known : NameSet) : ∀ (body : List Statement), Tame gosub call (Block.all body) →
    (walk seeds gosub false known body).Sound (blockRuns call body)
  | [], _ => Flow.sound_pass _
  | s :: rest, htame => by
    have htameHere : Tame gosub call (s :: s.within) :=
      htame.mono (List.cons_subset_cons s (List.subset_append_left _ _))
    have htameRest : Tame gosub call (Block.all rest) :=
      htame.mono fun t ht => List.mem_cons_of_mem _ (List.mem_append_right _ ht)
    have hinner := sound_effect (knownAt known s ∪ addAll s.assigned ∅) s htameHere
    unfold walk blockRuns
    cases heffect : effect seeds gosub (knownAt known s ∪ addAll s.assigned ∅) s with
    | mk outcome inner =>
      rw [heffect] at hinner
      simp only [heffect, Bool.false_eq_true, if_false]
      -- behind a statement that never goes on, everything is assigned on every path
      have hdead (hout : ¬ (innerRuns call s).GoesOn) :
          ¬ (Paths.andThen (.andThen (.once (eventsOf s) .on) (innerRuns call s))
            (blockRuns call rest)).GoesOn := by
        intro hon
        exact hout (Paths.goesOn_andThen.mp (Paths.goesOn_andThen.mp hon).1).2
      cases outcome with
      | goesOn proven =>
        have hlater := sound_walk (knownAt known s ∪ addAll s.assigned ∅ ∪ proven) rest htameRest
        constructor
        · intro hreturns hon
          exact hlater.ends hreturns (Paths.goesOn_andThen.mp hon).2
        · intro name hname
          rw [Std.ExtTreeSet.mem_union_iff, Std.ExtTreeSet.mem_union_iff, mem_addAll_empty] at hname
          rw [Paths.assigns_andThen, Paths.assigns_andThen, Paths.assigns_once_on]
          rcases hname with (hname | hname) | hname
          · exact Or.inl (Or.inl (assign_mem_eventsOf_of_mem hname))
          · exact Or.inl (Or.inr (hinner name hname))
          · exact Or.inr (hlater.assigns name hname)
      | returns =>
        exact ⟨fun _ => hdead hinner, fun name _ => assigns_of_not_goesOn (hdead hinner) name⟩
      | armsReturn =>
        exact ⟨fun _ => hdead hinner, fun name _ => assigns_of_not_goesOn (hdead hinner) name⟩

end

/-! ## 4. Where the walk sees a return -/

/-- Whether the walk takes a statement to return. -/
def Outcome.ends : Outcome → Bool
  | .goesOn _ => false
  | .returns | .armsReturn => true

theorem ends_outcomeOf (thenFlow elseFlow : Flow) :
    (outcomeOf thenFlow elseFlow).ends = (thenFlow.returns && elseFlow.returns) := by
  unfold outcomeOf
  cases thenFlow.returns <;> cases elseFlow.returns <;> rfl

mutual

theorem ends_effect (known : NameSet) : ∀ s : Statement,
    (effect seeds gosub known s).1.ends = s.returns
  | .action form span => by
    cases form with
    | onJump jump selector targets => cases jump <;> rfl
    | _ => rfl
  | .decision test thenArm elseArm span => by
    rw [effect, ends_outcomeOf, returns_walkArm known thenArm, returns_walkArm known elseArm,
      Statement.returns]
  | .counted counter body closing span => rfl
  | .loop body span => rfl
  | .choice arms span => rfl

theorem returns_walkArm (known : NameSet) : ∀ arm : Option (List Statement),
    (walkArm seeds gosub known arm).returns = armReturns arm
  | none => rfl
  | some body => returns_walk known body

theorem returns_walk (known : NameSet) : ∀ body : List Statement,
    (walk seeds gosub false known body).returns = blockReturns body
  | [] => rfl
  | s :: rest => by
    have hends := ends_effect (knownAt known s ∪ addAll s.assigned ∅) s
    unfold walk blockReturns
    cases heffect : effect seeds gosub (knownAt known s ∪ addAll s.assigned ∅) s with
    | mk outcome inner =>
      rw [heffect] at hends
      simp only [heffect, Bool.false_eq_true, if_false, ← hends]
      cases outcome with
      | goesOn proven => exact returns_walk _ rest
      | returns => rfl
      | armsReturn => rfl

end

/-! ## 5. Statements without a return -/

theorem Paths.andThen_returned {path : List Event} (h : P.andThen Q path .returned) :
    P path .returned ∨ ∃ a b, path = a ++ b ∧ P a .on ∧ Q b .returned := by
  cases h with
  | on first second => exact Or.inr ⟨_, _, rfl, first, second⟩
  | out first hexit => exact Or.inl first

theorem Paths.repeated_returned {path : List Event} (h : Paths.repeated P path .returned) :
    ∃ turn, P turn .returned := by
  generalize hexit : Exit.returned = exit at h
  induction h with
  | done => cases hexit
  | again turn turns ih => exact ih hexit
  | left turn => cases hexit
  | returned turn => exact ⟨_, turn⟩

/-- Statements on whose paths nothing returns, as far as their own jumps go. -/
def Stays (statements : List Statement) : Prop :=
  ∀ s ∈ statements, s.isGoto = false ∧ s.isReturn = false

mutual

theorem not_returned_statement (hcall : ∀ name path, ¬ call name path .returned) :
    ∀ (s : Statement), Stays (s :: s.within) →
    ∀ path, ¬ innerRuns call s path .returned
  | .action form span, hstays, path, hpath => by
    -- only calls, jumps and returns could leave: a call does not by hypothesis, the others do not occur
    obtain ⟨hgoto, hreturn⟩ := hstays _ List.mem_cons_self
    cases form with
    | gosub target => exact hcall _ _ hpath
    | goto target => cases hgoto
    | «return» value => cases hreturn
    | loopCondition test cond =>
      rcases hpath with ⟨-, hexit⟩ | ⟨-, hexit⟩ <;> cases hexit
    | onJump jump selector targets =>
      cases jump with
      | goto => cases hgoto
      | gosub =>
        rcases hpath with ⟨-, hexit⟩ | ⟨target, -, hpath⟩
        · cases hexit
        · exact hcall _ _ hpath
    | _ =>
      obtain ⟨-, hexit⟩ := hpath
      cases hexit
  | .decision test thenArm elseArm span, hstays, path, hpath => by
    rcases hpath with hpath | hpath
    · exact not_returned_arm hcall thenArm
        (fun s hs => hstays s (List.mem_cons_of_mem _ (List.mem_append_left _ hs))) path hpath
    · exact not_returned_arm hcall elseArm
        (fun s hs => hstays s (List.mem_cons_of_mem _ (List.mem_append_right _ hs))) path hpath
  | .counted counter body closing span, hstays, path, hpath => by
    obtain ⟨turn, hturn⟩ := Paths.repeated_returned hpath
    exact not_returned_block hcall body (fun s hs => hstays s (List.mem_cons_of_mem _ hs)) turn
      hturn
  | .loop body span, hstays, path, hpath => by
    obtain ⟨turn, hturn⟩ := Paths.repeated_returned hpath
    exact not_returned_block hcall body (fun s hs => hstays s (List.mem_cons_of_mem _ hs)) turn
      hturn
  | .choice arms span, hstays, path, hpath =>
    not_returned_cases hcall arms (fun s hs => hstays s (List.mem_cons_of_mem _ hs)) path hpath

theorem not_returned_arm (hcall : ∀ name path, ¬ call name path .returned) :
    ∀ (arm : Option (List Statement)), Stays (allInArm arm) →
    ∀ path, ¬ armRuns call arm path .returned
  | none, _, path, hpath => by
    obtain ⟨-, hexit⟩ := hpath
    cases hexit
  | some body, hstays, path, hpath => not_returned_block hcall body hstays path hpath

theorem not_returned_block (hcall : ∀ name path, ¬ call name path .returned) :
    ∀ (body : List Statement), Stays (Block.all body) →
    ∀ path, ¬ blockRuns call body path .returned
  | [], _, path, hpath => by
    obtain ⟨-, hexit⟩ := hpath
    cases hexit
  | s :: rest, hstays, path, hpath => by
    rcases Paths.andThen_returned hpath with hfirst | ⟨a, b, -, -, hrest⟩
    · rcases Paths.andThen_returned hfirst with ⟨-, hexit⟩ | ⟨-, inner, -, -, hinner⟩
      · cases hexit
      · exact not_returned_statement hcall s
          (fun t ht => hstays t (List.cons_subset_cons s (List.subset_append_left _ _) ht)) inner
          hinner
    · exact not_returned_block hcall rest
        (fun t ht => hstays t (List.mem_cons_of_mem _ (List.mem_append_right _ ht))) b hrest

theorem not_returned_cases (hcall : ∀ name path, ¬ call name path .returned) :
    ∀ (arms : List CaseArm), Stays (allInArms arms) →
    ∀ path, ¬ caseRuns call arms path .returned
  | [], _, path, hpath => by
    obtain ⟨-, hexit⟩ := hpath
    cases hexit
  | .mk cond body span :: rest, hstays, path, hpath => by
    rcases hpath with hpath | hpath
    · exact not_returned_block hcall body (fun s hs => hstays s (List.mem_append_left _ hs)) path
        hpath
    · exact not_returned_cases hcall rest (fun s hs => hstays s (List.mem_append_right _ hs)) path
        hpath

end

end Assignment

end BasicCheck
