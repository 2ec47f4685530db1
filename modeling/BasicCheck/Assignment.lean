import Std.Data.ExtTreeSet
import BasicCheck.Builtin
import BasicCheck.Procedure

/-!
# Reads of variables that may be unassigned

A walk over the body that keeps the variables which are certainly assigned. A read of any other one
is a finding, once for each place in the text.

* After two arms those variables are certain that both assign; an arm that returns does not count,
  and if both return, nothing behind them is looked at.
* What cases and the bodies of loops assign is never certain.
* A `gosub` makes certain what its subroutine assigns up to the first `return`. A subroutine that is
  just being walked through is not entered again, which ends every recursion: the subroutines that
  may still be entered become fewer each time (`gosubFlow`).
-/

namespace BasicCheck.Assignment

/-- Variables, by the names that they are looked up by. -/
abbrev NameSet := Std.ExtTreeSet String

/-! ## 1. What is found -/

/-- A read of a variable that may be unassigned, and the statement that reads it. -/
structure Finding where
  ident : Ident
  statement : Statement
  deriving Inhabited

/-- What a walk over statements finds. -/
structure Flow where
  /-- The variables that are assigned whenever control leaves behind the last statement. -/
  assigned : NameSet
  /-- The statements are left by a `return`. -/
  returns : Bool
  findings : List Finding

/-- What a statement does to the walk over its block. -/
inductive Outcome where
  /-- It goes on, with further variables certain. -/
  | goesOn (proven : NameSet)
  /-- It is a `return`. -/
  | returns
  /-- All of its arms return. -/
  | armsReturn

/-- Some names, added to a set of names. -/
def addAll (names : List String) (known : NameSet) : NameSet :=
  names.foldl (·.insert ·) known

/-- The names that are certain after two arms. -/
def outcomeOf (thenFlow elseFlow : Flow) : Outcome :=
  match thenFlow.returns, elseFlow.returns with
  | true, true => .armsReturn
  | false, false => .goesOn (thenFlow.assigned ∩ elseFlow.assigned)
  | true, false => .goesOn elseFlow.assigned
  | false, true => .goesOn thenFlow.assigned

/-! ## 2. What is known before the walk -/

/-- The variables that have a value before any statement has run, apart from system variables. -/
def environment : List String := ["true$", "false$"]

/-- Symbols that have a value from their declaration on. -/
def isSeeded (s : Symbol) : Bool :=
  match s.meaning with
  | .equate _ => true
  | .variable scope _ => s.isMatrix || scope != .own
  | _ => false

/-- The names that have a value before the first statement of a procedure. -/
def seedsOf (p : Procedure) : NameSet :=
  addAll (environment ++
    (p.symbols.symbols.toList.filter isSeeded).map fun s => Text.fold s.name) ∅

/-- Whether an identifier certainly has a value. -/
def isDefined (seeds known : NameSet) (ident : Ident) : Bool :=
  known.contains ident.folded || seeds.contains ident.folded ||
    Builtin.isSystemVariable ident.folded

/-! ## 3. The walk -/

/-- The reads of a statement that may be unassigned when some names are known. -/
def readsOf (seeds known : NameSet) (s : Statement) : List Finding :=
  (s.referenced.filter (!isDefined seeds known ·)).map (⟨·, s⟩)

/-- The names that are known when a statement makes its reads. The `next` of a counting loop reads
    its variable, which has a value by then. -/
def knownAt (known : NameSet) : Statement → NameSet
  | .counted counter _ _ _ => known.insert counter.name.folded
  | _ => known

section Walk

variable (seeds : NameSet) (gosub : String → NameSet → NameSet × List Finding)

mutual

/-- What the blocks and jumps of a statement do, with the findings in them. -/
def effect (known : NameSet) : Statement → Outcome × List Finding
  | .action (.return _) _ => (.returns, [])
  | .action (.gosub label) _ =>
    let (proven, findings) := gosub label.name known
    (.goesOn proven, findings)
  | .action (.onJump .gosub _ labels) _ =>
    (.goesOn ∅, labels.flatMap fun label => (gosub label.name known).2)
  | .action _ _ => (.goesOn ∅, [])
  | .decision _ thenArm elseArm _ =>
    let thenFlow := walkArm known thenArm
    let elseFlow := walkArm known elseArm
    (outcomeOf thenFlow elseFlow, thenFlow.findings ++ elseFlow.findings)
  | .counted _ body _ _ => (.goesOn ∅, (walk false known body).findings)
  | .loop body _ => (.goesOn ∅, (walk false known body).findings)
  | .choice arms _ => (.goesOn ∅, findingsInArms known arms)

/-- The walk over an arm; one that is missing does nothing. -/
def walkArm (known : NameSet) : Option (List Statement) → Flow
  | none => ⟨∅, false, []⟩
  | some body => walk false known body

/-- The walk over the statements of a block, which may end at the first `return`. Behind a `return`
    reads are still looked at, but what is assigned there no longer counts. -/
def walk (stopsAtReturn : Bool) (known : NameSet) : List Statement → Flow
  | [] => ⟨∅, false, []⟩
  | s :: rest =>
    let own := readsOf seeds (knownAt known s) s
    let assigned := addAll s.assigned ∅
    let known := knownAt known s ∪ assigned
    match effect known s with
    | (.goesOn proven, inner) =>
      let later := walk stopsAtReturn (known ∪ proven) rest
      ⟨assigned ∪ proven ∪ later.assigned, later.returns, own ++ inner ++ later.findings⟩
    | (.returns, inner) =>
      if stopsAtReturn then ⟨assigned, true, own ++ inner⟩
      else ⟨assigned, true, own ++ inner ++ (walk stopsAtReturn known rest).findings⟩
    | (.armsReturn, inner) => ⟨assigned, true, own ++ inner⟩

/-- The findings in the arms of a choice. -/
def findingsInArms (known : NameSet) : List CaseArm → List Finding
  | [] => []
  | .mk _ body _ :: rest => (walk false known body).findings ++ findingsInArms known rest

end

end Walk

/-- What a `gosub` makes certain and finds, if only the idle subroutines may be entered. -/
def gosubFlow (p : Procedure) (seeds : NameSet) (idle : List String) (label : String)
    (known : NameSet) : NameSet × List Finding :=
  if _h : Text.fold label ∈ idle then
    match p.afterLabel? label with
    | some body =>
      let flow := walk seeds (gosubFlow p seeds (idle.erase (Text.fold label))) true known body
      (flow.assigned, flow.findings)
    | none => (∅, [])
  else (∅, [])
termination_by idle.length
decreasing_by
  rw [List.length_erase_of_mem _h]
  have := List.length_pos_of_mem _h
  omega

end Assignment

/-! ## 4. The analysis -/

open Assignment in
/-- The reads of a procedure that may find their variable unassigned, in the order of the text. -/
def Procedure.unassigned (p : Procedure) : List Finding :=
  let seeds := seedsOf p
  let flow := walk seeds (gosubFlow p seeds p.labels.names) false ∅ p.body
  (flow.findings.eraseDupsBy fun a b => a.ident.span == b.ident.span).mergeSort
    fun a b => a.ident.span.start ≤ b.ident.span.start

end BasicCheck
