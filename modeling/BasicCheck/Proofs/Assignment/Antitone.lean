import Mathlib.Data.List.Dedup
import Mathlib.Data.List.Flatten
import BasicCheck.Proofs.Assignment.Exact
import BasicCheck.Proofs.Assignment.Inlining

/-!
# Knowing more

What is known at the start of a block decides only which reads the walk finds there. What it keeps of the
block and whether the block returns do not depend on it, and whoever knows more finds no further read
(**`Procedure.walk_antitone`**). This holds for a statement if it holds for the calls that it makes
(`narrows_effect`, `narrows_walk`), and so, by induction on the labels that are not active, for the calls
(`narrows_inlined`).

The analysis keeps the labels that are idle, which are those that are not active (`idleIn`). In terms of
active labels its calls obey the rule of the stack: a call is passed over if its label is active, and a
label that is entered becomes active (`inlined_eq`). So the walk with a stack has the same result
(`run_walk`).
-/

namespace BasicCheck

namespace Assignment

/-! ## 1. Calls while labels are active -/

/-- The labels of a procedure that are not active. -/
def idleIn (p : Procedure) (active : List String) : List String :=
  p.labels.names.dedup.filter (· ∉ active)

theorem mem_idleIn {p : Procedure} {active : List String} {name : String} :
    name ∈ idleIn p active ↔ name ∈ p.labels.names ∧ name ∉ active := by
  rw [idleIn, List.mem_filter, List.mem_dedup, decide_eq_true_eq]

theorem nodup_idleIn (p : Procedure) (active : List String) : (idleIn p active).Nodup :=
  p.labels.names.nodup_dedup.filter _

/-- A label that is entered becomes active. -/
theorem erase_idleIn (p : Procedure) (active : List String) (name : String) :
    (idleIn p active).erase name = idleIn p (name :: active) := by
  rw [(nodup_idleIn p active).erase_eq_filter, idleIn, idleIn, List.filter_filter]
  refine List.filter_congr fun other _ => ?_
  rw [Bool.eq_iff_iff]
  simp

/-- A label that leads somewhere and is entered leaves fewer labels idle. -/
theorem length_idleIn_lt {p : Procedure} {active : List String} {label : String} {body : Block}
    (hactive : Text.fold label ∉ active) (hbody : p.afterLabel? label = some body) :
    (idleIn p (Text.fold label :: active)).length < (idleIn p active).length := by
  have hknown : Text.fold label ∈ p.labels.names := by
    by_contra hunknown
    rw [Inlining.afterLabel?_eq_none hunknown] at hbody
    cases hbody
  have hless := List.length_erase_add_one (mem_idleIn.mpr ⟨hknown, hactive⟩)
  rw [erase_idleIn] at hless
  omega

/-- What a `gosub` makes certain and finds while some labels are active. -/
def inlined (p : Procedure) (seeds : NameSet) (active : List String) :
    String → NameSet → NameSet × List Finding :=
  gosubFlow p seeds (idleIn p active)

/-- **A call while labels are active** is passed over if its label is one of them or leads nowhere; else
    the walk goes through what stands behind the label, which is then active as well. -/
theorem inlined_eq (p : Procedure) (seeds : NameSet) (active : List String) (label : String)
    (known : NameSet) : inlined p seeds active label known =
      if Text.fold label ∈ active then (∅, [])
      else match p.afterLabel? label with
        | none => (∅, [])
        | some body =>
          let flow := walk seeds (inlined p seeds (Text.fold label :: active)) true known body
          (flow.assigned, flow.findings) := by
  rw [inlined, gosubFlow]
  by_cases hactive : Text.fold label ∈ active
  · rw [if_pos hactive, dif_neg fun hidle => (mem_idleIn.mp hidle).2 hactive]
  · rw [if_neg hactive]
    by_cases hknown : Text.fold label ∈ p.labels.names
    · rw [dif_pos (mem_idleIn.mpr ⟨hknown, hactive⟩), erase_idleIn]
      cases p.afterLabel? label <;> rfl
    · rw [dif_neg fun hidle => hknown (mem_idleIn.mp hidle).1, Inlining.afterLabel?_eq_none hknown]

/-- At the start of the analysis no label is active. -/
theorem inlined_nil {p : Procedure} (seeds : NameSet) (h : p.labels.names.Nodup) :
    inlined p seeds [] = gosubFlow p seeds p.labels.names := by
  rw [inlined, idleIn, h.dedup, List.filter_eq_self.mpr fun name _ => by simp]

/-- Labels that can be active together leave idle those that may still be entered. -/
theorem idle_idleIn {p : Procedure} {active : List String}
    (h : Inlining.Distinct p.labels.names active) :
    Inlining.Idle p.labels.names (idleIn p active) active :=
  ⟨h, nodup_idleIn p active, fun _ => mem_idleIn⟩

/-- **The walk with a stack** that starts with some labels on it is the walk while they are active. -/
theorem run_walk {p : Procedure} (seeds : NameSet) {active : List String}
    (h : Inlining.Distinct p.labels.names active) {depth : Nat} (hdepth : p.labels.size < depth)
    (stopsAtReturn : Bool) (known : NameSet) (body : Block) : ∃ history,
    (Inlining.walk seeds (Inlining.callUpTo p seeds depth) stopsAtReturn known body).run ⟨active, []⟩ =
      some (walk seeds (inlined p seeds active) stopsAtReturn known body, ⟨active, history⟩) := by
  have hcalls := Inlining.settles_callUpTo p seeds (idle_idleIn h)
  obtain ⟨seen, -, hrun⟩ := Inlining.settles_walk seeds hcalls stopsAtReturn known body
  have hidle : (idleIn p active).length ≤ p.labels.names.length :=
    ((List.filter_sublist).trans (List.dedup_sublist _)).length_le
  have hsize : p.labels.names.length = p.labels.size := List.length_map _
  exact ⟨seen, hrun depth [] (by omega)⟩

/-! ## 2. Two walks -/

/-- What is kept stays the same, and nothing new is found. -/
structure Narrows {α : Type} (less more : α × List Finding) : Prop where
  kept : more.1 = less.1
  found : more.2.Sublist less.2

/-- The same of two walks over a block. -/
structure Flow.Narrows (less more : Flow) : Prop where
  assigned : more.assigned = less.assigned
  returns : more.returns = less.returns
  findings : more.findings.Sublist less.findings

/-- Calls keep the same and find no more when more is known. -/
def CallsNarrow (gosub : String → NameSet → NameSet × List Finding) : Prop :=
  ∀ label {fewer more : NameSet}, (∀ name ∈ fewer, name ∈ more) →
    Assignment.Narrows (gosub label fewer) (gosub label more)

theorem Narrows.refl {α : Type} (found : α × List Finding) : Narrows found found :=
  ⟨rfl, List.Sublist.refl _⟩

theorem Flow.Narrows.refl (flow : Flow) : flow.Narrows flow := ⟨rfl, rfl, List.Sublist.refl _⟩

/-- Which outcome two arms have depends on what they keep. -/
theorem Flow.Narrows.outcomeOf {thenLess thenMore elseLess elseMore : Flow}
    (hthen : thenLess.Narrows thenMore) (helse : elseLess.Narrows elseMore) :
    outcomeOf thenMore elseMore = outcomeOf thenLess elseLess := by
  rw [Assignment.outcomeOf, Assignment.outcomeOf, hthen.assigned, hthen.returns, helse.assigned,
    helse.returns]

section Walk

variable (seeds : NameSet) {fewer more : NameSet}

theorem knownAt_mono (h : ∀ name ∈ fewer, name ∈ more) (s : Statement) :
    ∀ name ∈ knownAt fewer s, name ∈ knownAt more s := by
  intro name hname
  cases s with
  | counted counter body closing span =>
    exact Std.ExtTreeSet.mem_insert.mpr ((Std.ExtTreeSet.mem_insert.mp hname).imp_right (h name))
  | _ => exact h name hname

theorem union_mono (h : ∀ name ∈ fewer, name ∈ more) (further : NameSet) :
    ∀ name ∈ fewer ∪ further, name ∈ more ∪ further := fun name hname =>
  Std.ExtTreeSet.mem_union_iff.mpr ((Std.ExtTreeSet.mem_union_iff.mp hname).imp_left (h name))

/-- **A statement's own reads**: what is defined with less is defined with more. -/
theorem readsOf_sublist (h : ∀ name ∈ fewer, name ∈ more) (s : Statement) :
    (readsOf seeds more s).Sublist (readsOf seeds fewer s) := by
  refine (List.monotone_filter_right _ fun ident hfree => ?_).map _
  rw [Bool.not_eq_true'] at hfree ⊢
  obtain ⟨hunknown, hseed⟩ := isDefined_eq_false.mp hfree
  exact isDefined_eq_false.mpr ⟨fun hknown => hunknown (h _ hknown), hseed⟩

variable {gosub : String → NameSet → NameSet × List Finding}

mutual

/-- **The blocks and jumps of a statement.** -/
theorem narrows_effect (hgosub : CallsNarrow gosub) : ∀ (s : Statement) {fewer more : NameSet},
    (∀ name ∈ fewer, name ∈ more) →
    Narrows (effect seeds gosub fewer s) (effect seeds gosub more s)
  | .action form span, fewer, more, h => by
    cases form with
    | gosub label =>
      have hcall := hgosub label.name h
      exact ⟨congrArg Outcome.goesOn hcall.kept, hcall.found⟩
    | onJump jump selector labels =>
      cases jump with
      | goto => exact Narrows.refl _
      | gosub =>
        exact ⟨rfl, List.Sublist.flatMap_right _ fun label _ => (hgosub label.name h).found⟩
    | _ => exact Narrows.refl _
  | .decision test thenArm elseArm span, fewer, more, h => by
    have hthen := narrows_walkArm hgosub thenArm h
    have helse := narrows_walkArm hgosub elseArm h
    exact ⟨hthen.outcomeOf helse, hthen.findings.append helse.findings⟩
  | .counted counter body closing span, fewer, more, h =>
    ⟨rfl, (narrows_walk hgosub false body h).findings⟩
  | .loop body span, fewer, more, h => ⟨rfl, (narrows_walk hgosub false body h).findings⟩
  | .choice arms span, fewer, more, h => ⟨rfl, findingsInArms_sublist hgosub arms h⟩

theorem narrows_walkArm (hgosub : CallsNarrow gosub) :
    ∀ (arm : Option (List Statement)) {fewer more : NameSet}, (∀ name ∈ fewer, name ∈ more) →
    (walkArm seeds gosub fewer arm).Narrows (walkArm seeds gosub more arm)
  | none, _, _, _ => Flow.Narrows.refl _
  | some body, _, _, h => narrows_walk hgosub false body h

/-- **The walk over a block.** Since its first statement has the same outcome in both walks, they go on
    with the same names added, or both stop. -/
theorem narrows_walk (hgosub : CallsNarrow gosub) (stopsAtReturn : Bool) :
    ∀ (body : List Statement) {fewer more : NameSet}, (∀ name ∈ fewer, name ∈ more) →
    (walk seeds gosub stopsAtReturn fewer body).Narrows (walk seeds gosub stopsAtReturn more body)
  | [], _, _, _ => Flow.Narrows.refl _
  | s :: rest, fewer, more, h => by
    have hat := knownAt_mono h s
    have hbehind := union_mono hat (addAll s.assigned ∅)
    have hown := readsOf_sublist seeds hat s
    obtain ⟨houtcome, hinner⟩ := narrows_effect hgosub s hbehind
    rw [walk, walk]
    generalize effect seeds gosub (knownAt fewer s ∪ addAll s.assigned ∅) s = less at houtcome hinner ⊢
    generalize effect seeds gosub (knownAt more s ∪ addAll s.assigned ∅) s = greater
      at houtcome hinner ⊢
    obtain ⟨outcome, inner⟩ := less
    obtain ⟨outcome', inner'⟩ := greater
    -- the same outcome in both walks, so that what is known later differs as it did before
    obtain rfl : outcome' = outcome := houtcome
    have hhere := hown.append hinner
    cases outcome' with
    | goesOn proven =>
      have hlater := narrows_walk hgosub stopsAtReturn rest (union_mono hbehind proven)
      refine ⟨?_, hlater.returns, hhere.append hlater.findings⟩
      exact congrArg (addAll s.assigned ∅ ∪ proven ∪ ·) hlater.assigned
    | returns =>
      cases stopsAtReturn with
      | true => exact ⟨rfl, rfl, hhere⟩
      | false => exact ⟨rfl, rfl, hhere.append (narrows_walk hgosub false rest hbehind).findings⟩
    | armsReturn => exact ⟨rfl, rfl, hhere⟩

theorem findingsInArms_sublist (hgosub : CallsNarrow gosub) :
    ∀ (arms : List CaseArm) {fewer more : NameSet}, (∀ name ∈ fewer, name ∈ more) →
    (findingsInArms seeds gosub more arms).Sublist (findingsInArms seeds gosub fewer arms)
  | [], _, _, _ => List.Sublist.refl _
  | .mk _ body _ :: rest, _, _, h =>
    (narrows_walk hgosub false body h).findings.append (findingsInArms_sublist hgosub rest h)

end

/-- **Calls**, by induction on the labels that are not active. -/
theorem narrows_inlined (p : Procedure) (seeds : NameSet) (active : List String) :
    CallsNarrow (inlined p seeds active) := by
  intro label fewer more h
  rw [inlined_eq, inlined_eq]
  by_cases hactive : Text.fold label ∈ active
  · rw [if_pos hactive, if_pos hactive]
    exact Narrows.refl _
  · rw [if_neg hactive, if_neg hactive]
    cases hbody : p.afterLabel? label with
    | none => exact Narrows.refl _
    | some body =>
      have hless := length_idleIn_lt hactive hbody
      have hcalls := narrows_inlined p seeds (Text.fold label :: active)
      have hflow := narrows_walk seeds hcalls true body h
      exact ⟨hflow.assigned, hflow.findings⟩
termination_by (idleIn p active).length
decreasing_by
  exact hless

end Walk

/-- The places of the reads that a walk finds. -/
def Flow.places (flow : Flow) : List Span := flow.findings.map (·.ident.span)

end Assignment

/-! ## 3. Any walk of the analysis -/

namespace Procedure

open Assignment

/-- **Knowing more never adds findings.** Whatever labels are active, two walks over the same statements
    keep the same names and both return or both do not; and if the second one starts with all the names
    that the first one starts with, what it finds has been found by the first one, in the same order, so
    there is no place where only the second one finds a read. -/
theorem walk_antitone (p : Procedure) (seeds : NameSet) (active : List String) (stopsAtReturn : Bool)
    (body : Block) {fewer more : NameSet} (h : ∀ name ∈ fewer, name ∈ more) :
    let flow known := walk seeds (inlined p seeds active) stopsAtReturn known body
    (flow more).assigned = (flow fewer).assigned ∧ (flow more).returns = (flow fewer).returns ∧
      (flow more).findings.Sublist (flow fewer).findings ∧
      (flow more).places ⊆ (flow fewer).places := by
  have hcalls := narrows_inlined p seeds active
  obtain ⟨hassigned, hreturns, hfindings⟩ := narrows_walk seeds hcalls stopsAtReturn body h
  exact ⟨hassigned, hreturns, hfindings, (hfindings.map _).subset⟩

/-- A subroutine that calls itself and reads what its caller reads too. -/
def calledText : String := "gosub a\nx = y\nreturn\na:\nz = y + w\ngosub a\nreturn\n"

/-- From the start of the analysis: knowing `y` leaves only the reads of `w`. -/
theorem walk_antitone_called :
    let p := ofText calledText 0
    let flow known := walk (seedsOf p) (gosubFlow p (seedsOf p) p.labels.names) false known p.body
    (∀ name ∈ (∅ : NameSet), name ∈ addAll ["y"] ∅) ∧
      (flow (addAll ["y"] ∅)).assigned = (flow ∅).assigned ∧
      (flow (addAll ["y"] ∅)).returns = (flow ∅).returns ∧
      (flow (addAll ["y"] ∅)).findings.Sublist (flow ∅).findings ∧
      (flow (addAll ["y"] ∅)).places ⊆ (flow ∅).places ∧
      (flow ∅).places.length = 7 ∧ (flow (addAll ["y"] ∅)).places.length = 3 := by
  intro p flow
  have hnodup : p.labels.names.Nodup := labels_ofText calledText 0 ▸ LabelTable.nodup_names_ofBody _
  have hcalls := inlined_nil (seedsOf p) hnodup
  have hflow : flow = fun known => walk (seedsOf p) (inlined p (seedsOf p) []) false known p.body := by
    rw [hcalls]
  -- a walk with a history follows each call once and finds the same, so it can be evaluated
  have hlength {known : NameSet} {count : Nat}
      (hcount : ((Inlining.walk (seedsOf p) (Inlining.callUpTo p (seedsOf p) 2) false known p.body).run
        ⟨[], []⟩).map (·.1.places.length) = some count) : (flow known).places.length = count := by
    have hempty : Inlining.Distinct p.labels.names [] := ⟨List.nodup_nil, List.nil_subset _⟩
    obtain ⟨history, hrun⟩ := run_walk (seedsOf p) hempty
      (show p.labels.size < 2 by decide +kernel) false known p.body
    rw [hrun, Option.map_some, Option.some_inj] at hcount
    rwa [hflow]
  have hknown : ∀ name ∈ (∅ : NameSet), name ∈ addAll ["y"] ∅ :=
    fun name hname => absurd hname Std.ExtTreeSet.not_mem_empty
  obtain ⟨hassigned, hreturns, hfindings, hplaces⟩ :=
    walk_antitone p (seedsOf p) [] false p.body hknown
  rw [← hflow] at hassigned hreturns hfindings hplaces
  exact ⟨hknown, hassigned, hreturns, hfindings, hplaces, hlength (by decide +kernel),
    hlength (by decide +kernel)⟩

end Procedure

end BasicCheck
