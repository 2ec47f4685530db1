import Mathlib.Data.List.Dedup
import Mathlib.Data.List.Perm.Subperm
import BasicCheck.Assignment
import BasicCheck.Proofs.Parse.Labels

/-!
# The labels that are being inlined

The walk enters a subroutine at each `gosub` that leads to it, unless it is just being walked
through. Here the walk keeps the labels of these subroutines on a stack of its own (`Inlining`), and
nothing but the stack tells it where to stop: a call puts its label on top, walks from there, and
takes the top off again (`Inlining.call`). Without a bound on how deep calls nest this would be no
definition; so they nest less deep than a given number, and beyond there is no result
(`Inlining.callUpTo`).

A bound is not needed: as soon as the number is greater than that of the labels, there is a result,
and always the same one. No label was on the stack twice at any time, it was never higher than there
are labels, and at the end it is empty. The result is that of the analysis
(**`Procedure.unassigned_terminates`**).

One lemma tells what a call does, from what calls do while its label is on the stack
(`Inlining.settles_call`); the rest is the recursion of the walk (`Inlining.settles_walk`).
-/

namespace BasicCheck

open Assignment

/-! ## 1. The walk with a stack -/

/-- The labels of the subroutines that are being walked through. -/
structure Inlining where
  /-- The labels, the last one that was entered first. -/
  active : List String
  /-- The labels that were active after each change. -/
  history : List (List String)

/-- A walk that changes the labels which are active, if it comes to an end. -/
abbrev Inline (α : Type) := StateT Inlining Option α

namespace Inlining

/-- A label is put on top. -/
def enter (label : String) : Inline Unit :=
  modify fun now => ⟨label :: now.active, now.history ++ [label :: now.active]⟩

/-- The top is taken off. -/
def leave : Inline Unit :=
  modify fun now => ⟨now.active.tail, now.history ++ [now.active.tail]⟩

section Walk

variable (seeds : NameSet) (gosub : String → NameSet → Inline (NameSet × List Assignment.Finding))

/-- The subroutines of some labels, one after the other. -/
def findingsInCalls (known : NameSet) : List Ident → Inline (List Assignment.Finding)
  | [] => pure []
  | label :: rest => do
    let (_, findings) ← gosub label.name known
    let later ← findingsInCalls known rest
    return findings ++ later

mutual

/-- What the blocks and jumps of a statement do (`Assignment.effect`). -/
def effect (known : NameSet) : Statement → Inline (Outcome × List Assignment.Finding)
  | .action (.return _) _ => pure (.returns, [])
  | .action (.gosub label) _ => do
    let (proven, findings) ← gosub label.name known
    return (.goesOn proven, findings)
  | .action (.onJump .gosub _ labels) _ => do
    let findings ← findingsInCalls gosub known labels
    return (.goesOn ∅, findings)
  | .action _ _ => pure (.goesOn ∅, [])
  | .decision _ thenArm elseArm _ => do
    let thenFlow ← walkArm known thenArm
    let elseFlow ← walkArm known elseArm
    return (outcomeOf thenFlow elseFlow, thenFlow.findings ++ elseFlow.findings)
  | .counted _ body _ _ => do
    let flow ← walk false known body
    return (.goesOn ∅, flow.findings)
  | .loop body _ => do
    let flow ← walk false known body
    return (.goesOn ∅, flow.findings)
  | .choice arms _ => do
    let findings ← findingsInArms known arms
    return (.goesOn ∅, findings)

/-- The walk over an arm (`Assignment.walkArm`). -/
def walkArm (known : NameSet) : Option (List Statement) → Inline Flow
  | none => pure ⟨∅, false, []⟩
  | some body => walk false known body

/-- The walk over the statements of a block (`Assignment.walk`). -/
def walk (stopsAtReturn : Bool) (known : NameSet) : List Statement → Inline Flow
  | [] => pure ⟨∅, false, []⟩
  | s :: rest => do
    let own := readsOf seeds (knownAt known s) s
    let assigned := addAll s.assigned ∅
    let known := knownAt known s ∪ assigned
    let (outcome, inner) ← effect known s
    match outcome with
    | .goesOn proven =>
      let later ← walk stopsAtReturn (known ∪ proven) rest
      return ⟨assigned ∪ proven ∪ later.assigned, later.returns, own ++ inner ++ later.findings⟩
    | .returns =>
      if stopsAtReturn then return ⟨assigned, true, own ++ inner⟩
      let later ← walk stopsAtReturn known rest
      return ⟨assigned, true, own ++ inner ++ later.findings⟩
    | .armsReturn => return ⟨assigned, true, own ++ inner⟩

/-- The findings in the arms of a choice (`Assignment.findingsInArms`). -/
def findingsInArms (known : NameSet) : List CaseArm → Inline (List Assignment.Finding)
  | [] => pure []
  | .mk _ body _ :: rest => do
    let flow ← walk false known body
    let later ← findingsInArms known rest
    return flow.findings ++ later

end

end Walk

/-- What a `gosub` makes certain and finds. A subroutine that is active is not entered again. -/
def call (p : Procedure) (seeds : NameSet)
    (gosub : String → NameSet → Inline (NameSet × List Assignment.Finding)) (label : String)
    (known : NameSet) : Inline (NameSet × List Assignment.Finding) := do
  if Text.fold label ∈ (← get).active then return (∅, [])
  match p.afterLabel? label with
  | none => return (∅, [])
  | some body =>
    enter (Text.fold label)
    let flow ← walk seeds gosub true known body
    leave
    return (flow.assigned, flow.findings)

/-- Calls that nest less deep than a given number. -/
def callUpTo (p : Procedure) (seeds : NameSet) :
    Nat → String → NameSet → Inline (NameSet × List Assignment.Finding)
  | 0 => fun _ _ => failure
  | depth + 1 => call p seeds (callUpTo p seeds depth)

end Inlining

/-- The findings as they are reported: each place once, in the order of the text. -/
def Assignment.reported (findings : List Assignment.Finding) : List Assignment.Finding :=
  (findings.eraseDupsBy fun a b => a.ident.span == b.ident.span).mergeSort
    fun a b => a.ident.span.start ≤ b.ident.span.start

/-- What the analysis reports, and the labels that were active on the way, if calls nest less deep
    than a given number. -/
def Procedure.unassignedUpTo (p : Procedure) (depth : Nat) :
    Option (List Assignment.Finding × Inlining) := do
  let seeds := seedsOf p
  let (flow, inlining) ←
    (Inlining.walk seeds (Inlining.callUpTo p seeds depth) false ∅ p.body).run ⟨[], []⟩
  return (reported flow.findings, inlining)

/-! ## 2. Walks that come to an end -/

namespace Inlining

/-- Labels of a table, none of them twice. -/
structure Distinct (names : List String) (active : List String) : Prop where
  nodup : active.Nodup
  known : active ⊆ names

/-- Different labels of a table are no more than there are. -/
theorem Distinct.length_le {names active : List String} (h : Distinct names active) :
    active.length ≤ names.length :=
  (List.subperm_of_subset h.nodup h.known).length_le

/-- A walk that is told how deep calls may nest has a given result, whenever that is deeper than
    `bound`. It leaves the stack as it was, and no label was ever on it twice. -/
def Settles {α : Type} (names active : List String) (bound : Nat) (run : Nat → Inline α)
    (result : α) : Prop :=
  ∃ seen : List (List String), (∀ labels ∈ seen, Distinct names labels) ∧
    ∀ depth history, bound < depth →
      (run depth).run ⟨active, history⟩ = some (result, ⟨active, history ++ seen⟩)

section Settles

variable {α β : Type} {names active : List String} {bound : Nat}

theorem Settles.pure (result : α) : Settles names active bound (fun _ => Pure.pure result) result :=
  ⟨[], List.forall_mem_nil _, fun _ history _ => by rw [List.append_nil]; rfl⟩

/-- **One walk after the other.** -/
theorem Settles.bind {first : Nat → Inline α} {second : Nat → α → Inline β} {a : α} {b : β}
    (hfirst : Settles names active bound first a)
    (hsecond : Settles names active bound (fun depth => second depth a) b) :
    Settles names active bound (fun depth => first depth >>= second depth) b := by
  obtain ⟨seen, hseen, hrun⟩ := hfirst
  obtain ⟨seen', hseen', hrun'⟩ := hsecond
  refine ⟨seen ++ seen', List.forall_mem_append.mpr ⟨hseen, hseen'⟩, fun depth history hdepth => ?_⟩
  calc (first depth >>= second depth).run ⟨active, history⟩
      = ((first depth).run ⟨active, history⟩).bind
          fun (found, now) => (second depth found).run now := rfl
    _ = (second depth a).run ⟨active, history ++ seen⟩ := by
      rw [hrun depth history hdepth, Option.bind_some]
    _ = some (b, ⟨active, history ++ (seen ++ seen')⟩) := by
      rw [← List.append_assoc]
      exact hrun' depth _ hdepth

end Settles

/-! ## 3. The walk over statements -/

/-- All calls come to an end, each with the result that it has without a stack. -/
def CallsSettle (names active : List String) (bound : Nat)
    (calls : Nat → String → NameSet → Inline (NameSet × List Assignment.Finding))
    (gosub : String → NameSet → NameSet × List Assignment.Finding) : Prop :=
  ∀ label known, Settles names active bound (fun depth => calls depth label known)
    (gosub label known)

section Walk

variable {names active : List String} {bound : Nat} (seeds : NameSet)
  {calls : Nat → String → NameSet → Inline (NameSet × List Assignment.Finding)}
  {gosub : String → NameSet → NameSet × List Assignment.Finding}

theorem settles_findingsInCalls (hcalls : CallsSettle names active bound calls gosub)
    (known : NameSet) : ∀ labels : List Ident,
    Settles names active bound (fun depth => findingsInCalls (calls depth) known labels)
      (labels.flatMap fun label => (gosub label.name known).2)
  | [] => .pure []
  | label :: rest =>
    (hcalls label.name known).bind ((settles_findingsInCalls hcalls known rest).bind (.pure _))

mutual

theorem settles_effect (hcalls : CallsSettle names active bound calls gosub)
    (known : NameSet) : ∀ s : Statement,
    Settles names active bound (fun depth => effect seeds (calls depth) known s)
      (Assignment.effect seeds gosub known s)
  | .action form span => by
    cases form with
    | gosub label => exact (hcalls label.name known).bind (.pure _)
    | onJump jump selector labels =>
      cases jump with
      | goto => exact .pure _
      | gosub => exact (settles_findingsInCalls hcalls known labels).bind (.pure _)
    | _ => exact .pure _
  | .decision test thenArm elseArm span =>
    (settles_walkArm hcalls known thenArm).bind
      ((settles_walkArm hcalls known elseArm).bind (.pure _))
  | .counted counter body closing span => (settles_walk hcalls false known body).bind (.pure _)
  | .loop body span => (settles_walk hcalls false known body).bind (.pure _)
  | .choice arms span => (settles_findingsInArms hcalls known arms).bind (.pure _)

theorem settles_walkArm (hcalls : CallsSettle names active bound calls gosub)
    (known : NameSet) : ∀ arm : Option (List Statement),
    Settles names active bound (fun depth => walkArm seeds (calls depth) known arm)
      (Assignment.walkArm seeds gosub known arm)
  | none => .pure _
  | some body => settles_walk hcalls false known body

/-- **The walk over a block** gives the result that it has without a stack, if calls do. -/
theorem settles_walk (hcalls : CallsSettle names active bound calls gosub)
    (stopsAtReturn : Bool) (known : NameSet) : ∀ body : List Statement,
    Settles names active bound (fun depth => walk seeds (calls depth) stopsAtReturn known body)
      (Assignment.walk seeds gosub stopsAtReturn known body)
  | [] => .pure _
  | s :: rest => by
    have hhere := settles_effect hcalls (knownAt known s ∪ addAll s.assigned ∅) s
    unfold walk Assignment.walk
    cases heffect : Assignment.effect seeds gosub (knownAt known s ∪ addAll s.assigned ∅) s with
    | mk outcome inner =>
      rw [heffect] at hhere
      simp only [heffect]
      refine hhere.bind ?_
      cases outcome with
      | goesOn proven => exact (settles_walk hcalls stopsAtReturn _ rest).bind (.pure _)
      | returns =>
        cases stopsAtReturn with
        | true => exact .pure _
        | false => exact (settles_walk hcalls false _ rest).bind (.pure _)
      | armsReturn => exact .pure _

theorem settles_findingsInArms (hcalls : CallsSettle names active bound calls gosub)
    (known : NameSet) : ∀ arms : List CaseArm,
    Settles names active bound (fun depth => findingsInArms seeds (calls depth) known arms)
      (Assignment.findingsInArms seeds gosub known arms)
  | [] => .pure _
  | .mk _ body _ :: rest =>
    (settles_walk hcalls false known body).bind
      ((settles_findingsInArms hcalls known rest).bind (.pure _))

end

end Walk

/-! ## 4. Calls -/

/-- The labels that are not active are those that may still be entered. -/
structure Idle (names idle active : List String) : Prop where
  distinct : Distinct names active
  nodup : idle.Nodup
  mem_iff : ∀ name, name ∈ idle ↔ name ∈ names ∧ name ∉ active

/-- At first all labels are idle. -/
theorem Idle.initial (names : List String) : Idle names names.dedup [] where
  distinct := ⟨List.nodup_nil, List.nil_subset _⟩
  nodup := names.nodup_dedup
  mem_iff name := by simp

/-- A label that is entered is idle no more. -/
theorem Idle.enter {names idle active : List String} (h : Idle names idle active) {label : String}
    (hlabel : label ∈ idle) : Idle names (idle.erase label) (label :: active) where
  distinct := by
    obtain ⟨hknown, hfresh⟩ := (h.mem_iff label).mp hlabel
    exact ⟨List.nodup_cons.mpr ⟨hfresh, h.distinct.nodup⟩,
      List.cons_subset.mpr ⟨hknown, h.distinct.known⟩⟩
  nodup := h.nodup.erase label
  mem_iff name := by
    rw [h.nodup.mem_erase_iff, h.mem_iff, List.mem_cons, not_or]
    exact and_left_comm

section Calls

variable {p : Procedure} {seeds known : NameSet} {idle active : List String} {label : String}
  {gosub : String → NameSet → Inline (NameSet × List Assignment.Finding)}
  {history : List (List String)}

/-- Only labels of the table lead anywhere. -/
theorem afterLabel?_eq_none (h : Text.fold label ∉ p.labels.names) :
    p.afterLabel? label = none := by
  have hget : p.labels.get? label = none := by
    refine List.lookup_eq_none_iff.mpr fun entry hentry => bne_iff_ne.mpr ?_
    rintro heq
    exact h (heq ▸ List.mem_map_of_mem hentry)
  rw [Procedure.afterLabel?, hget]
  rfl

/-- A label that is active is passed over. -/
theorem call_of_active (h : Text.fold label ∈ active) :
    (call p seeds gosub label known).run ⟨active, history⟩ = some ((∅, []), ⟨active, history⟩) := by
  simp [call, h]

/-- So is one that leads nowhere. -/
theorem call_of_none (h : p.afterLabel? label = none) :
    (call p seeds gosub label known).run ⟨active, history⟩ = some ((∅, []), ⟨active, history⟩) := by
  simp [call, h]

/-- Any other label is put on the stack for the walk behind it. -/
theorem call_of_some {body : Block} (hactive : Text.fold label ∉ active)
    (hbody : p.afterLabel? label = some body) :
    (call p seeds gosub label known).run ⟨active, history⟩ =
      ((walk seeds gosub true known body).run
        ⟨Text.fold label :: active, history ++ [Text.fold label :: active]⟩).map
        fun (flow, now) => ((flow.assigned, flow.findings),
          ⟨now.active.tail, now.history ++ [now.active.tail]⟩) := by
  generalize hrun : (walk seeds gosub true known body).run
    ⟨Text.fold label :: active, history ++ [Text.fold label :: active]⟩ = walked
  cases walked <;> simp [call, hactive, hbody, enter, leave, hrun]

/-- Calls that are passed over change nothing. -/
theorem settles_passed {bound : Nat}
    (h : ∀ gosub history, (call p seeds gosub label known).run ⟨active, history⟩ =
      some ((∅, []), ⟨active, history⟩)) :
    Settles p.labels.names active bound (fun depth => callUpTo p seeds depth label known)
      (∅, []) := by
  refine ⟨[], List.forall_mem_nil _, fun depth history hdepth => ?_⟩
  obtain ⟨depth, rfl⟩ := Nat.exists_eq_add_one_of_ne_zero (Nat.ne_zero_of_lt hdepth)
  rw [List.append_nil]
  exact h _ history

/-- **A call** has a result if those have one that are made while its label is active. -/
theorem settles_call {body : Block} {result : String → NameSet → NameSet × List Assignment.Finding}
    (h : Idle p.labels.names idle active) (hidle : Text.fold label ∈ idle)
    (hbody : p.afterLabel? label = some body)
    (hinner : CallsSettle p.labels.names (Text.fold label :: active)
      (idle.erase (Text.fold label)).length (callUpTo p seeds) result) :
    let flow := Assignment.walk seeds result true known body
    Settles p.labels.names active idle.length (fun depth => callUpTo p seeds depth label known)
      (flow.assigned, flow.findings) := by
  intro flow
  obtain ⟨seen, hseen, hrun⟩ := settles_walk seeds hinner true known body
  refine ⟨(Text.fold label :: active) :: seen ++ [active], ?_, fun depth history hdepth => ?_⟩
  · exact List.forall_mem_append.mpr ⟨List.forall_mem_cons.mpr ⟨(h.enter hidle).distinct, hseen⟩,
      List.forall_mem_singleton.mpr h.distinct⟩
  · obtain ⟨depth, rfl⟩ := Nat.exists_eq_add_one_of_ne_zero (Nat.ne_zero_of_lt hdepth)
    have hless := List.length_erase_add_one hidle
    have hfresh := ((h.mem_iff _).mp hidle).2
    have hcall : (callUpTo p seeds (depth + 1) label known).run ⟨active, history⟩ = _ :=
      call_of_some hfresh hbody
    rw [hcall, hrun depth _ (by omega)]
    simp [flow]

/-- **Calls give the result that they have without a stack**, as soon as they may nest deeper than
    there are idle labels. -/
theorem settles_callUpTo (p : Procedure) (seeds : NameSet) {idle active : List String}
    (h : Idle p.labels.names idle active) :
    CallsSettle p.labels.names active idle.length (callUpTo p seeds) (gosubFlow p seeds idle) := by
  intro label known
  rw [gosubFlow]
  by_cases hidle : Text.fold label ∈ idle
  · rw [dif_pos hidle]
    cases hbody : p.afterLabel? label with
    | none => exact settles_passed fun _ _ => call_of_none hbody
    | some body =>
      exact settles_call h hidle hbody (settles_callUpTo p seeds (h.enter hidle))
  · -- the label is active, or leads nowhere
    rw [dif_neg hidle]
    by_cases hactive : Text.fold label ∈ active
    · exact settles_passed fun _ _ => call_of_active hactive
    · have hunknown : Text.fold label ∉ p.labels.names :=
        fun hknown => hidle ((h.mem_iff _).mpr ⟨hknown, hactive⟩)
      exact settles_passed fun _ _ => call_of_none (afterLabel?_eq_none hunknown)
termination_by idle.length
decreasing_by
  have := List.length_erase_add_one hidle
  omega

end Calls

end Inlining

/-! ## 5. The analysis -/

/-- **The analysis comes to an end.** As soon as calls may nest deeper than there are labels, there
    is a result, always the same one: no label was ever on the stack twice, the stack was never
    higher than there are labels, and it is empty at the end. If no label is twice in the table, the
    result is what the analysis reports. -/
theorem Procedure.unassigned_terminates (p : Procedure) : ∃ findings history,
    (∀ depth, p.labels.size < depth →
      p.unassignedUpTo depth = some (findings, ⟨[], history⟩)) ∧
      (∀ active ∈ history, active.Nodup ∧ active.length ≤ p.labels.size) ∧
      (p.labels.names.Nodup → findings = p.unassigned) := by
  have hcalls := Inlining.settles_callUpTo p (seedsOf p) (.initial p.labels.names)
  obtain ⟨history, hdistinct, hrun⟩ := Inlining.settles_walk (seedsOf p) hcalls false ∅ p.body
  have hsize : p.labels.names.length = p.labels.size := List.length_map _
  let flow := walk (seedsOf p) (gosubFlow p (seedsOf p) p.labels.names.dedup) false ∅ p.body
  refine ⟨reported flow.findings, history, fun depth hdepth => ?_, fun active hactive => ?_,
    fun hnodup => ?_⟩
  · have hbound := (List.dedup_sublist p.labels.names).length_le
    have hwalk := hrun depth [] (by omega)
    rw [unassignedUpTo, hwalk]
    rfl
  · exact ⟨(hdistinct active hactive).nodup, hsize ▸ (hdistinct active hactive).length_le⟩
  · rw [show flow = walk _ (gosubFlow p (seedsOf p) p.labels.names.dedup) false ∅ p.body from rfl,
      hnodup.dedup]
    rfl

/-- Two subroutines that call each other. -/
def mutualText : String := "gosub a\nreturn\na:\ngosub b\nreturn\nb:\ngosub a\nreturn\n"

/-- From each of the three calls the walk enters one subroutine and from there the other one. -/
theorem Procedure.unassigned_terminates_mutual :
    (ofText mutualText 0).labels.size < 3 ∧ (ofText mutualText 0).labels.names.Nodup ∧
      (ofText mutualText 0).unassignedUpTo 3 = some ((ofText mutualText 0).unassigned,
        ⟨[], [["a"], ["b", "a"], ["a"], [], ["b"], ["a", "b"], ["b"], [],
          ["a"], ["b", "a"], ["a"], []]⟩) := by
  have hsize : (ofText mutualText 0).labels.size < 3 := by decide +kernel
  have hnodup : (ofText mutualText 0).labels.names.Nodup :=
    labels_ofText mutualText 0 ▸ LabelTable.nodup_names_ofBody _
  have hhistory : ((ofText mutualText 0).unassignedUpTo 3).map (·.2.history) =
      some [["a"], ["b", "a"], ["a"], [], ["b"], ["a", "b"], ["b"], [],
        ["a"], ["b", "a"], ["a"], []] := by decide +kernel
  obtain ⟨findings, history, hrun, -, hreported⟩ := unassigned_terminates (ofText mutualText 0)
  rw [hrun 3 hsize] at hhistory
  obtain rfl := Option.some.inj hhistory
  exact ⟨hsize, hnodup, hreported hnodup ▸ hrun 3 hsize⟩

end BasicCheck
