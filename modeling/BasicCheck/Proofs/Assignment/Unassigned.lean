import Mathlib.Data.List.Pairwise
import BasicCheck.Proofs.Assignment.Exact
import BasicCheck.Proofs.Parse.Procedure

/-!
# Unassigned variables

The walk over statements without labels and jumps is exact but for what counting loops read of their
own variables (**`faithful_walk`**): by mutual induction over statements, arms, blocks and cases, each
of which applies the rule for the way in which its paths are put together. Two facts about the
statements of a text carry it: they are all different, so that no finding is taken for one of another
statement, and counting loops write their variables (`JumpFree`). Over structured statements it is
exact (**`exact_walk`**).

Since no two identifiers of a text stand at the same place, nothing is lost when findings at the same
place are dropped; so the whole analysis is exact (**`Procedure.mem_unassigned_iff`**).
-/

namespace BasicCheck

namespace Assignment

/-! ## 1. What a walk keeps -/

/-- The statements are left by a `return` if no path goes on; the variables that are kept are those
    that no path goes on without assigning. -/
def Flow.Fits (flow : Flow) (P : Paths) : Prop :=
  match flow.returns with
  | true => ¬ P.GoesOn
  | false => P.GoesOn ∧ ∀ name, name ∈ flow.assigned ↔ P.Assigns name

/-- The same of what a statement does to the walk over its block. -/
def Outcome.Fits (outcome : Outcome) (P : Paths) : Prop :=
  match outcome with
  | .goesOn proven => P.GoesOn ∧ ∀ name, name ∈ proven ↔ P.Assigns name
  | .returns | .armsReturn => ¬ P.GoesOn

variable {P Q : Paths} {thenFlow elseFlow : Flow}

/-- Where nothing is certain. -/
theorem Outcome.fits_goesOn_empty (hon : P.GoesOn) (hfree : ∀ name, ¬ P.Assigns name) :
    Outcome.Fits (.goesOn ∅) P :=
  ⟨hon, fun name => iff_of_false Std.ExtTreeSet.not_mem_empty (hfree name)⟩

theorem not_assigns_pass (name : String) : ¬ (Paths.once [] .on).Assigns name :=
  fun h => absurd (Paths.assigns_once_on.mp h) List.not_mem_nil

theorem Flow.fits_pass : Flow.Fits ⟨∅, false, []⟩ (.once [] .on) :=
  ⟨Paths.goesOn_once_on, fun name => iff_of_false Std.ExtTreeSet.not_mem_empty (not_assigns_pass name)⟩

/-- **Two arms.** -/
theorem Flow.Fits.outcomeOf (hthen : thenFlow.Fits P) (helse : elseFlow.Fits Q) :
    (outcomeOf thenFlow elseFlow).Fits (P.either Q) := by
  have hdead {R : Paths} {name : String} (h : ¬ R.GoesOn) : R.Assigns name :=
    fun path hpath => absurd ⟨path, hpath⟩ h
  unfold Flow.Fits at hthen helse
  unfold Assignment.outcomeOf
  cases hleft : thenFlow.returns <;> cases hright : elseFlow.returns <;>
    simp only [hleft, hright, Outcome.Fits, Paths.goesOn_either, Paths.assigns_either] at hthen helse ⊢
  · refine ⟨Or.inl hthen.1, fun name => ?_⟩
    rw [Std.ExtTreeSet.mem_inter_iff, hthen.2, helse.2]
  · refine ⟨Or.inl hthen.1, fun name => ?_⟩
    rw [hthen.2]
    exact (and_iff_left (hdead helse)).symm
  · refine ⟨Or.inr helse.1, fun name => ?_⟩
    rw [helse.2]
    exact (and_iff_right (hdead hthen)).symm
  · exact not_or.mpr ⟨hthen, helse⟩

/-- **A statement that goes on, and the rest of its block.** -/
theorem Outcome.Fits.andThen {R : Paths} {assigned proven : NameSet} {later : Flow}
    {found : List Finding} (hproven : Outcome.Fits (.goesOn proven) Q) (hlater : later.Fits R)
    (hassigned : ∀ name, name ∈ assigned ↔ P.Assigns name) (hon : P.GoesOn) :
    Flow.Fits ⟨assigned ∪ proven ∪ later.assigned, later.returns, found⟩
      ((P.andThen Q).andThen R) := by
  obtain ⟨honQ, hproven⟩ := hproven
  unfold Flow.Fits at hlater ⊢
  dsimp only
  cases hreturns : later.returns <;> rw [hreturns] at hlater
  · refine ⟨Paths.goesOn_andThen.mpr ⟨Paths.goesOn_andThen.mpr ⟨hon, honQ⟩, hlater.1⟩, fun name => ?_⟩
    rw [Std.ExtTreeSet.mem_union_iff, Std.ExtTreeSet.mem_union_iff, hassigned, hproven, hlater.2,
      Paths.assigns_andThen, Paths.assigns_andThen]
  · exact fun h => hlater (Paths.goesOn_andThen.mp h).2

/-- Statements without labels and jumps that are all different, and whose loops write their
    variables. -/
structure JumpFree (statements : List Statement) : Prop where
  jumpFree {s : Statement} : s ∈ statements → s.isJumpFree = true
  counters {s : Statement} : s ∈ statements → s.WritesCounter
  nodup : statements.Nodup

theorem JumpFree.append {a b : List Statement} (h : JumpFree (a ++ b)) :
    JumpFree a ∧ JumpFree b ∧ a.Disjoint b := by
  obtain ⟨ha, hb, hapart⟩ := List.nodup_append'.mp h.nodup
  refine ⟨⟨fun hs => ?_, fun hs => ?_, ha⟩, ⟨fun hs => ?_, fun hs => ?_, hb⟩, hapart⟩
  · exact h.jumpFree (List.mem_append_left _ hs)
  · exact h.counters (List.mem_append_left _ hs)
  · exact h.jumpFree (List.mem_append_right _ hs)
  · exact h.counters (List.mem_append_right _ hs)

/-- Structured statements that are all different, and whose loops write their variables. -/
structure Plain (statements : List Statement) : Prop where
  structured {s : Statement} : s ∈ statements → s.isStructured = true
  counters {s : Statement} : s ∈ statements → s.WritesCounter
  nodup : statements.Nodup

theorem Plain.jumpFree {statements : List Statement} (h : Plain statements) : JumpFree statements :=
  ⟨fun hs => Statement.isJumpFree_of_isStructured (h.structured hs), h.counters, h.nodup⟩

/-- A loop that writes its variable assigns nothing more on a path than it says. -/
theorem assign_mem_eventsOf {s : Statement} (hs : s.WritesCounter) {name : String} :
    .assign name ∈ eventsOf s ↔ name ∈ s.assigned := by
  have hreads := assign_notMem_readsBy name s
  cases s with
  | counted counter body closing span =>
    have hcounter : counter.name.folded ∈ (Statement.counted counter body closing span).assigned := by
      refine List.mem_map.mpr ⟨counter.name, List.mem_filter.mpr ⟨List.mem_cons_self, ?_⟩, rfl⟩
      exact beq_iff_eq.mpr hs
    simp only [eventsOf, List.mem_append, List.mem_cons, hreads, List.mem_map, false_or,
      Event.assign.injEq, exists_eq_right]
    exact or_iff_right_of_imp fun h => h ▸ hcounter
  | _ => simp only [eventsOf, List.mem_append, hreads, List.mem_map, false_or, Event.assign.injEq,
      exists_eq_right]

/-! ## 2. The walk -/

section Walk

variable (seeds : NameSet) (gosub : String → NameSet → NameSet × List Finding)

/-- A statement and its blocks, from what its blocks do. -/
theorem faithful_statement {known : NameSet} {s : Statement} {inner : List Finding}
    (hself : s ∉ s.within)
    (hinner : Faithful seeds (knownAt known s ∪ addAll s.assigned ∅) s.within inner (innerPaths s)) :
    Faithful seeds known (s :: s.within) (readsOf seeds (knownAt known s) s ++ inner)
      (.andThen (.once (eventsOf s) .on) (innerPaths s)) := by
  have hapart : [s].Disjoint s.within := List.singleton_disjoint.mpr hself
  refine faithful_readsOf.andThen hinner (fun name => ?_) hapart
  rw [mem_knownAt_union, Paths.assigns_once_on]

mutual

theorem faithful_effect (known : NameSet) : ∀ (s : Statement), s.isJumpFree = true → JumpFree s.within →
    Faithful seeds known s.within (effect seeds gosub known s).2 (innerPaths s) ∧
      (effect seeds gosub known s).1.Fits (innerPaths s)
  | .action form span, hs, hplain => by
    cases form with
    | label name => cases hs
    | goto target => cases hs
    | gosub target => cases hs
    | onJump jump selector labels => cases hs
    | «return» value =>
      refine ⟨Faithful.pass, ?_⟩
      rintro ⟨path, -, hexit⟩
      cases hexit
    | loopCondition test cond =>
      refine ⟨Faithful.pass.either Faithful.pass (List.disjoint_nil_left _), ?_⟩
      refine Outcome.fits_goesOn_empty ?_ fun name h => ?_
      · exact Paths.goesOn_either.mpr (Or.inl Paths.goesOn_once_on)
      · exact not_assigns_pass name (Paths.assigns_either.mp h).1
    | _ =>
      exact ⟨Faithful.pass, Outcome.fits_goesOn_empty Paths.goesOn_once_on not_assigns_pass⟩
  | .decision test thenArm elseArm span, hs, hplain => by
    obtain ⟨hplainThen, hplainElse, hapart⟩ := hplain.append
    obtain ⟨hthen, hthenFits⟩ := faithful_arm known thenArm hplainThen
    obtain ⟨helse, helseFits⟩ := faithful_arm known elseArm hplainElse
    exact ⟨hthen.either helse hapart, hthenFits.outcomeOf helseFits⟩
  | .counted counter body closing span, hs, hplain => by
    obtain ⟨hbody, -⟩ := faithful_walk known body hplain
    refine ⟨hbody.repeated, Outcome.fits_goesOn_empty Paths.goesOn_repeated fun name => ?_⟩
    exact Paths.not_assigns_repeated
  | .loop body span, hs, hplain => by
    obtain ⟨hbody, -⟩ := faithful_walk known body hplain
    refine ⟨hbody.repeated, Outcome.fits_goesOn_empty Paths.goesOn_repeated fun name => ?_⟩
    exact Paths.not_assigns_repeated
  | .choice arms span, hs, hplain => by
    obtain ⟨harms, hon, hfree⟩ := faithful_arms known arms hplain
    exact ⟨harms, Outcome.fits_goesOn_empty hon hfree⟩

theorem faithful_arm (known : NameSet) : ∀ (arm : Option (List Statement)), JumpFree (allInArm arm) →
    Faithful seeds known (allInArm arm) (walkArm seeds gosub known arm).findings (armPaths arm) ∧
      (walkArm seeds gosub known arm).Fits (armPaths arm)
  | none, _ => ⟨Faithful.pass, Flow.fits_pass⟩
  | some body, hplain => faithful_walk known body hplain

/-- **The walk over statements without labels and jumps** is exact but for what counting loops read of
    their own variables. -/
theorem faithful_walk (known : NameSet) : ∀ (body : List Statement), JumpFree (Block.all body) →
    Faithful seeds known (Block.all body) (walk seeds gosub false known body).findings
        (blockPaths body) ∧
      (walk seeds gosub false known body).Fits (blockPaths body)
  | [], _ => ⟨Faithful.pass, Flow.fits_pass⟩
  | s :: rest, hplain => by
    have hs : s.isJumpFree = true := hplain.jumpFree List.mem_cons_self
    have hwrites : s.WritesCounter := hplain.counters List.mem_cons_self
    obtain ⟨hplainHere, hplainRest, hapart⟩ := JumpFree.append (a := s :: s.within) hplain
    obtain ⟨hself, -⟩ := List.nodup_cons.mp hplainHere.nodup
    obtain ⟨-, hplainWithin, -⟩ := JumpFree.append (a := [s]) hplainHere
    obtain ⟨hinner, hfits⟩ :=
      faithful_effect (knownAt known s ∪ addAll s.assigned ∅) s hs hplainWithin
    have hone := faithful_statement seeds hself hinner
    unfold walk
    cases heffect : effect seeds gosub (knownAt known s ∪ addAll s.assigned ∅) s with
    | mk outcome inner =>
      rw [heffect] at hone hfits
      simp only [heffect, Bool.false_eq_true, if_false]
      have hout (hdead : ¬ (innerPaths s).GoesOn) :
          ¬ (Paths.andThen (.once (eventsOf s) .on) (innerPaths s)).GoesOn :=
        fun h => hdead (Paths.goesOn_andThen.mp h).2
      -- nothing is alive behind a statement that does not go on, so no finding there is asked about
      cases outcome with
      | goesOn proven =>
        obtain ⟨hlater, hlaterFits⟩ :=
          faithful_walk (knownAt known s ∪ addAll s.assigned ∅ ∪ proven) rest hplainRest
        refine ⟨hone.andThen hlater (fun name => ?_) hapart,
          hfits.andThen hlaterFits (fun name => ?_) Paths.goesOn_once_on⟩
        · rw [Std.ExtTreeSet.mem_union_iff, mem_knownAt_union, Paths.assigns_andThen,
            Paths.assigns_once_on, hfits.2, or_assoc]
        · rw [mem_addAll_empty, Paths.assigns_once_on, assign_mem_eventsOf hwrites]
      | returns =>
        obtain ⟨hlater, -⟩ := faithful_walk (knownAt known s ∪ addAll s.assigned ∅) rest hplainRest
        refine ⟨?_, fun h => hout hfits (Paths.goesOn_andThen.mp h).1⟩
        exact hone.stop (hout hfits) hlater.alive (fun r hr => hlater.within hr) hapart
      | armsReturn =>
        obtain ⟨hlater, -⟩ := faithful_walk known rest hplainRest
        refine ⟨?_, fun h => hout hfits (Paths.goesOn_andThen.mp h).1⟩
        have hall := hone.stop (hout hfits) hlater.alive (List.forall_mem_nil _) hapart
        rw [List.append_nil] at hall
        exact hall

theorem faithful_arms (known : NameSet) : ∀ (arms : List CaseArm), JumpFree (allInArms arms) →
    Faithful seeds known (allInArms arms) (findingsInArms seeds gosub known arms) (casePaths arms) ∧
      (casePaths arms).GoesOn ∧ ∀ name, ¬ (casePaths arms).Assigns name
  | [], _ => ⟨Faithful.pass, Paths.goesOn_once_on, not_assigns_pass⟩
  | .mk cond body span :: rest, hplain => by
    obtain ⟨hplainBody, hplainRest, hapart⟩ := hplain.append
    obtain ⟨hbody, -⟩ := faithful_walk known body hplainBody
    obtain ⟨hrest, hon, hfree⟩ := faithful_arms known rest hplainRest
    refine ⟨hbody.either hrest hapart, Paths.goesOn_either.mpr (Or.inr hon), fun name h => ?_⟩
    exact hfree name (Paths.assigns_either.mp h).2

end

/-- **The walk over structured statements is exact.** -/
theorem exact_walk (known : NameSet) (body : List Statement) (hplain : Plain (Block.all body)) :
    Exact seeds known (Block.all body) (walk seeds gosub false known body).findings
        (blockPaths body) ∧
      (walk seeds gosub false known body).Fits (blockPaths body) := by
  obtain ⟨hwalk, hfits⟩ := faithful_walk seeds gosub known body hplain.jumpFree
  exact ⟨hwalk.exact fun s hs => hplain.structured hs, hfits⟩

end Walk

/-! ## 3. What is known before the walk -/

/-- A variable that has a value before the first statement: a parameter, a common variable, a matrix,
    an equate, a system variable, or one of those that the environment defines. -/
def Seeded (p : Procedure) (name : String) : Prop :=
  name = "true$" ∨ name = "false$" ∨ Builtin.isSystemVariable name = true ∨
    ∃ symbol ∈ p.symbols.symbols, Text.fold symbol.name = name ∧
      (symbol.kind = .equate ∨ symbol.isMatrix = true ∨ symbol.scope? = some .parameter ∨
        symbol.scope? = some .common ∨ symbol.scope? = some .system)

theorem isSeeded_iff {s : Symbol} : isSeeded s = true ↔ s.kind = .equate ∨ s.isMatrix = true ∨
    s.scope? = some .parameter ∨ s.scope? = some .common ∨ s.scope? = some .system := by
  obtain ⟨id, name, token, meaning, references⟩ := s
  cases meaning with
  | «variable» scope shape => cases scope <;> simp [isSeeded, Symbol.kind, Symbol.scope?, Meaning.kind]
  | _ => simp [isSeeded, Symbol.kind, Symbol.scope?, Symbol.isMatrix, Meaning.kind]

theorem mem_seedsOf {p : Procedure} {name : String} : name ∈ seedsOf p ↔
    name ∈ environment ∨ ∃ s ∈ p.symbols.symbols, isSeeded s = true ∧ Text.fold s.name = name := by
  unfold seedsOf
  rw [mem_addAll_empty, List.mem_append, List.mem_map]
  refine or_congr_right ?_
  constructor
  · rintro ⟨s, hs, hname⟩
    obtain ⟨hmem, hseeded⟩ := List.mem_filter.mp hs
    exact ⟨s, Array.mem_toList_iff.mp hmem, hseeded, hname⟩
  · rintro ⟨s, hmem, hseeded, hname⟩
    exact ⟨s, List.mem_filter.mpr ⟨Array.mem_toList_iff.mpr hmem, hseeded⟩, hname⟩

/-- Before the walk exactly the seeded variables are known. -/
theorem isDefined_seedsOf {p : Procedure} {ident : Ident} :
    isDefined (seedsOf p) ∅ ident = false ↔ ¬ Seeded p ident.folded := by
  have hempty : (∅ : NameSet).contains ident.folded = false := rfl
  rw [isDefined, hempty, Bool.false_or, Bool.or_eq_false_iff, ← Bool.not_eq_true, ← Bool.not_eq_true,
    Std.ExtTreeSet.contains_iff_mem, mem_seedsOf, ← not_or, not_iff_not]
  simp only [Seeded, environment, List.mem_cons, List.not_mem_nil, or_false, isSeeded_iff]
  grind

/-! ## 4. The analysis -/

theorem mem_eraseDupsBy {α : Type} {same : α → α → Bool} {a : α} : ∀ {l : List α},
    (∀ x ∈ l, ∀ y ∈ l, same x y = true → x = y) → (a ∈ l.eraseDupsBy same ↔ a ∈ l)
  | [], _ => by rw [List.eraseDupsBy_nil]
  | first :: rest, hsame => by
    have hrest : ∀ x ∈ rest.filter (same · first = false), ∀ y ∈ rest.filter (same · first = false),
        same x y = true → x = y := fun x hx y hy =>
      hsame x (List.mem_cons_of_mem _ (List.mem_of_mem_filter hx)) y
        (List.mem_cons_of_mem _ (List.mem_of_mem_filter hy))
    rw [List.eraseDupsBy_cons, List.mem_cons, List.mem_cons, mem_eraseDupsBy hrest, List.mem_filter,
      decide_eq_true_eq]
    constructor
    · intro h
      rcases h with h | ⟨h, -⟩
      · exact Or.inl h
      · exact Or.inr h
    · intro h
      by_cases heq : same a first = true
      · exact Or.inl (hsame a (List.mem_cons.mpr h) first List.mem_cons_self heq)
      · rcases h with h | h
        · exact Or.inl h
        · exact Or.inr ⟨h, Bool.eq_false_iff.mpr heq⟩
termination_by l => l.length
decreasing_by
  exact Nat.lt_succ_of_le (List.length_filter_le _ _)

theorem mem_expressions_of_mem_updatedTargets {s : Statement} {target : Expr}
    (h : target ∈ s.updatedTargets) : target ∈ s.expressions := by
  unfold Statement.updatedTargets at h
  split at h
  · split at h
    · rw [List.mem_singleton.mp h]
      exact List.mem_cons_self
    · exact absurd h List.not_mem_nil
  all_goals
    first
    | exact absurd h List.not_mem_nil
    | rw [List.mem_singleton.mp h]
      simp [Statement.expressions, Action.expressions]

/-- What a statement reads is among its identifiers. -/
theorem mem_idents_of_mem_referenced {s : Statement} {ident : Ident} (h : ident ∈ s.referenced) :
    ident ∈ s.idents := by
  rcases List.mem_append.mp h with h | h
  · exact List.mem_of_mem_filter h
  · obtain ⟨target, htarget, hbase⟩ := List.mem_filterMap.mp h
    refine List.mem_append_right _ (List.mem_flatMap.mpr ⟨target, ?_, ?_⟩)
    · exact mem_expressions_of_mem_updatedTargets htarget
    · exact Parse.mem_idents_of_baseIdent? hbase

/-- Reads at the same place are the same read. -/
theorem eq_of_span_eq {statements : List Statement}
    (hnodup : ((statements.flatMap Statement.idents).map Ident.span).Nodup) {a b : Finding}
    (ha : a.statement ∈ statements ∧ a.ident ∈ a.statement.referenced)
    (hb : b.statement ∈ statements ∧ b.ident ∈ b.statement.referenced)
    (h : a.ident.span = b.ident.span) : a = b := by
  have hidentA := mem_idents_of_mem_referenced ha.2
  have hidentB := mem_idents_of_mem_referenced hb.2
  have hident : a.ident = b.ident := List.inj_on_of_nodup_map hnodup
    (List.mem_flatMap.mpr ⟨_, ha.1, hidentA⟩) (List.mem_flatMap.mpr ⟨_, hb.1, hidentB⟩) h
  have hstatement : a.statement = b.statement := by
    by_contra hne
    have hapart := (List.nodup_flatMap.mp hnodup.of_map).2
    have hsymm : Std.Symm (Function.onFun List.Disjoint Statement.idents) :=
      ⟨fun _ _ h => List.disjoint_symm h⟩
    have hdisjoint := hapart.forall ha.1 hb.1 hne
    rw [hident] at hidentA
    exact hdisjoint hidentA hidentB
  rcases a with ⟨ident, statement⟩
  rcases b with ⟨ident', statement'⟩
  rw [show ident = ident' from hident, show statement = statement' from hstatement]

end Assignment

namespace Procedure

open Assignment

/-- **The analysis is exact on structured code**: a read that some path reaches is found if and only
    if some path reaches it while its variable has not been assigned before, and the variable has no
    value from the start. -/
theorem mem_unassigned_iff (source : String) (file : Nat) {r : Assignment.Finding}
    (hstructured : ∀ s ∈ Block.all (ofText source file).body, s.isStructured = true)
    (hreached : (blockPaths (ofText source file).body).Reaches r) :
    r ∈ (ofText source file).unassigned ↔ (blockPaths (ofText source file).body).Exposes r ∧
      ¬ Seeded (ofText source file) r.ident.folded := by
  have hplain : Plain (Block.all (ofText source file).body) :=
    ⟨fun hs => hstructured _ hs, fun hs => writesCounter source file _ hs, nodup_all source file⟩
  obtain ⟨hexact, -⟩ := exact_walk (seedsOf (ofText source file))
    (gosubFlow (ofText source file) (seedsOf (ofText source file)) (ofText source file).labels.names)
    ∅ (ofText source file).body hplain
  unfold unassigned
  rw [List.mem_mergeSort, mem_eraseDupsBy, hexact.found_iff hreached, isDefined_seedsOf]
  intro a ha b hb hspan
  exact eq_of_span_eq (nodup_idents source file) (hexact.within ha) (hexact.within hb)
    (eq_of_beq hspan)

/-- An assignment, alone in its block, that reads something. -/
def readsAtOnce : Block → Bool
  | [.action (.assignment target op value) span] =>
    !(Statement.action (.assignment target op value) span).referenced.isEmpty
  | _ => false

/-- The right side of an assignment is reached. -/
theorem mem_unassigned_iff_assignment : ∃ r, (blockPaths (ofText "x = y\n" 0).body).Reaches r ∧
    (r ∈ (ofText "x = y\n" 0).unassigned ↔ (blockPaths (ofText "x = y\n" 0).body).Exposes r ∧
      ¬ Seeded (ofText "x = y\n" 0) r.ident.folded) := by
  have hstructured : ∀ s ∈ Block.all (ofText "x = y\n" 0).body, s.isStructured = true :=
    List.all_eq_true.mp (by decide +kernel)
  have hshape : readsAtOnce (ofText "x = y\n" 0).body = true := by decide +kernel
  unfold readsAtOnce at hshape
  split at hshape
  · rename_i target op value span hbody
    rw [Bool.not_eq_true', ← Bool.not_eq_true, List.isEmpty_iff] at hshape
    obtain ⟨ident, rest, hreads⟩ := List.exists_cons_of_ne_nil hshape
    have hreached : (blockPaths (ofText "x = y\n" 0).body).Reaches
        ⟨ident, .action (.assignment target op value) span⟩ := by
      rw [hbody]
      refine ⟨_, _, .on (.on ⟨rfl, rfl⟩ ⟨rfl, rfl⟩) ⟨rfl, rfl⟩, ?_⟩
      refine List.mem_append_left _ (List.mem_append_left _ (read_mem_eventsOf.mpr ⟨?_, rfl⟩))
      rw [hreads]
      exact List.mem_cons_self
    exact ⟨_, hreached, mem_unassigned_iff _ _ hstructured hreached⟩
  · cases hshape

end Procedure

end BasicCheck
