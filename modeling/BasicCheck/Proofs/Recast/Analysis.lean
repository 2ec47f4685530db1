import BasicCheck.Finding
import BasicCheck.Proofs.Assignment.Read
import BasicCheck.Proofs.Assignment.Unassigned
import BasicCheck.Proofs.Recast.Procedure
import BasicCheck.Proofs.Reachability.Seen

/-!
# Analyses of procedures that are written anew

The two analyses of a procedure that is written anew find what they find in the procedure, written
anew (**`Procedure.Recasts.unreachable`**, **`Procedure.Recasts.unassigned`**): labels and variables
are compared by their folded names, what is found is put into the order of the places, and of two
reads at one place one is kept. The last needs that different places of reads stay different.
-/

namespace BasicCheck

variable {ρ : Recast}

/-! ## 1. Labels -/

namespace Procedure.Recasts

variable {p q : Procedure}

/-- A label leads to one place in both procedures; what is taken from its block is written anew. -/
theorem bind_label (h : p.Recasts ρ q) (label : String) {α : Type} {g : α → α}
    {f k : LabelLocation → Block → Option α}
    (hf : ∀ location block,
      k location (block.map (Statement.recast ρ)) = (f location block).map g) :
    ((q.labels.get? (ρ.text label)).bind fun location =>
        (location.resolve? q.body).bind (k location)) =
      ((p.labels.get? label).bind fun location =>
        (location.resolve? p.body).bind (f location)).map g := by
  rw [h.labels, LabelTable.get?_recast]
  cases p.labels.get? label with
  | none => rfl
  | some location =>
    show (Block.enter? q.body location.steps).bind (k location) =
      ((Block.enter? p.body location.steps).bind (f location)).map g
    rw [h.body, Block.enter?_recast]
    cases Block.enter? p.body location.steps with
    | none => rfl
    | some block => exact hf location block

/-- The same name leads to the same statement. -/
theorem labelStatement? (h : p.Recasts ρ q) (label : String) :
    q.labelStatement? (ρ.text label) = (p.labelStatement? label).map (Statement.recast ρ) :=
  h.bind_label label fun _ _ => List.getElem?_map

theorem afterLabel? (h : p.Recasts ρ q) (label : String) :
    q.afterLabel? (ρ.text label) = (p.afterLabel? label).map (List.map (Statement.recast ρ)) :=
  h.bind_label label fun _ _ => congrArg some List.map_drop.symm

end Procedure.Recasts

/-! ## 2. Statements that are never reached -/

namespace Reachability

theorem jumpTargets_recast (s : Statement) :
    jumpTargets (s.recast ρ) = (jumpTargets s).map (Ident.recast ρ) := by
  cases s with
  | action form span => cases form <;> rfl
  | _ => rfl

theorem endsBlock_recast (s : Statement) : endsBlock (s.recast ρ) = endsBlock s := by
  cases s with
  | action form span => cases form <;> rfl
  | _ => rfl

theorem isHarmless_recast (s : Statement) : isHarmless (s.recast ρ) = isHarmless s := by
  cases s with
  | action form span => cases form <;> rfl
  | _ => rfl

theorem isLabel_recast (s : Statement) : (s.recast ρ).isLabel = s.isLabel := by
  cases s with
  | action form span => cases form <;> rfl
  | _ => rfl

/-- The edges and the dead statements, these written anew. -/
def Findings.recast (ρ : Recast) (f : Findings) : Findings :=
  ⟨f.edges, f.dead.map (Statement.recast ρ)⟩

theorem Findings.recast_append (a b : Findings) :
    (a ++ b).recast ρ = a.recast ρ ++ b.recast ρ :=
  congrArg (Findings.mk (a.edges ++ b.edges)) List.map_append

mutual

theorem inStatement_recast (label : String) :
    ∀ s : Statement, inStatement label (s.recast ρ) = (inStatement label s).recast ρ
  | .action form span => rfl
  | .decision test (some thenArm) (some elseArm) span => by
    rw [Statement.recast, recastArm, recastArm, inStatement, inStatement, inBlock_recast,
      inBlock_recast, Findings.recast_append]
  | .decision test (some arm) none span => by
    rw [Statement.recast, recastArm, recastArm, inStatement, inStatement, inBlock_recast]
  | .decision test none (some arm) span => by
    rw [Statement.recast, recastArm, recastArm, inStatement, inStatement, inBlock_recast]
  | .decision test none none span => rfl
  | .counted counter body closing span => by
    rw [Statement.recast, inStatement, inStatement, inBlock_recast]
  | .loop body span => by rw [Statement.recast, inStatement, inStatement, inBlock_recast]
  | .choice arms span => by rw [Statement.recast, inStatement, inStatement, inArms_recast]

/-- The walk over a block takes the same way over what is written anew. -/
theorem inBlock_recast (label : String) (reached : Bool) :
    ∀ body : List Statement,
      inBlock label reached (Block.recast ρ body) = (inBlock label reached body).recast ρ
  | [] => rfl
  | s :: rest => by
    rw [Block.recast]
    -- a label, a statement that is reached, or one that is not; writing anew keeps which it is
    by_cases hs : s.isLabel = true
    · obtain ⟨name, span, rfl⟩ := exists_of_isLabel hs
      rw [Statement.recast, Action.recast, inBlock, inBlock, Ident.folded_recast, inBlock_recast,
        Findings.recast_append]
      rfl
    · have hs : s.isLabel = false := Bool.eq_false_iff.mpr hs
      have hs' : (s.recast ρ).isLabel = false := by rw [isLabel_recast, hs]
      cases reached with
      | true =>
        have htargets : ((jumpTargets s).map (Ident.recast ρ)).map
              (fun target => (label, target.folded)) =
            (jumpTargets s).map fun target => (label, target.folded) := by
          rw [List.map_map]
          exact congrArg (List.map · _) (funext fun i => congrArg (label, ·) i.folded_recast)
        rw [inBlock_cons_of_reached hs, inBlock_cons_of_reached hs', jumpTargets_recast, htargets,
          endsBlock_recast, inStatement_recast, inBlock_recast, Findings.recast_append,
          Findings.recast_append]
        rfl
      | false =>
        rw [inBlock_cons_of_not_reached hs, inBlock_cons_of_not_reached hs', isHarmless_recast,
          inBlock_recast, Findings.recast_append]
        split <;> rfl

theorem inArms_recast (label : String) :
    ∀ arms : List CaseArm, inArms label (recastCases ρ arms) = (inArms label arms).recast ρ
  | [] => rfl
  | .mk cond body span :: rest => by
    rw [recastCases, inArms, inArms, inBlock_recast, inArms_recast, Findings.recast_append]

end

end Reachability

open Reachability in
/-- **The statements that are never reached** are written anew. -/
theorem Procedure.Recasts.unreachable {p q : Procedure} (h : p.Recasts ρ q) :
    q.unreachable = p.unreachable.map (Statement.recast ρ) := by
  -- the order in which findings are sorted does not change, as that of the places does not
  have hsort (found : List Statement) :
      (found.mergeSort fun a b => a.span.start ≤ b.span.start).map (Statement.recast ρ) =
        (found.map (Statement.recast ρ)).mergeSort fun a b => a.span.start ≤ b.span.start :=
    List.map_mergeSort fun a _ b _ => by
      simp only [Statement.span_recast, Span.start_recast, ρ.place_le]
  have hfound : inBlock "" true q.body = (inBlock "" true p.body).recast ρ := by
    rw [h.body, ← Block.recast_eq, inBlock_recast]
  have hlost (live : List String) : (q.symbols.symbols.toList.filterMap fun s =>
        if s.kind == .label && s.isDeclared && !live.contains (Text.fold s.name) then
          q.labelStatement? s.name
        else none) =
      (p.symbols.symbols.toList.filterMap fun s =>
        if s.kind == .label && s.isDeclared && !live.contains (Text.fold s.name) then
          p.labelStatement? s.name
        else none).map (Statement.recast ρ) := by
    rw [h.symbols.symbols, Array.toList_map, List.filterMap_map, List.map_filterMap]
    refine congrArg (List.filterMap · _) (funext fun s => ?_)
    have hstatement : q.labelStatement? (s.recast ρ).name =
        (p.labelStatement? s.name).map (Statement.recast ρ) := h.labelStatement? s.name
    rw [Function.comp_apply, Symbol.kind_recast, Symbol.isDeclared_recast, Symbol.fold_name_recast,
      hstatement]
    split <;> rfl
  unfold Procedure.unreachable
  dsimp only
  rw [hfound, hsort, List.map_append, hlost]
  rfl

/-! ## 3. Reads that may be unassigned -/

namespace Assignment

/-- The finding that is written anew. -/
def Finding.recast (ρ : Recast) (f : Finding) : Finding :=
  ⟨f.ident.recast ρ, f.statement.recast ρ⟩

/-- The flow with what has been found written anew. -/
def Flow.recast (ρ : Recast) (flow : Flow) : Flow :=
  { flow with findings := flow.findings.map (Finding.recast ρ) }

theorem seedsOf_recast {p q : Procedure} (h : p.Recasts ρ q) : seedsOf q = seedsOf p := by
  have hseeded (s : Symbol) : isSeeded (s.recast ρ) = isSeeded s := by
    obtain ⟨id, name, token, meaning, references⟩ := s
    cases meaning with
    | «variable» scope shape => cases shape <;> rfl
    | _ => rfl
  have hnames : (q.symbols.symbols.toList.filter isSeeded).map (fun s => Text.fold s.name) =
      (p.symbols.symbols.toList.filter isSeeded).map fun s => Text.fold s.name := by
    rw [h.symbols.symbols, Array.toList_map, List.filter_map, List.map_map]
    have hfilter : isSeeded ∘ Symbol.recast ρ = isSeeded := funext hseeded
    rw [hfilter]
    exact congrArg (List.map · _) (funext Symbol.fold_name_recast)
  rw [seedsOf, seedsOf, hnames]

variable (seeds known : NameSet)

theorem isDefined_recast (i : Ident) :
    isDefined seeds known (i.recast ρ) = isDefined seeds known i := by
  rw [isDefined, isDefined, Ident.folded_recast]

theorem knownAt_recast (s : Statement) : knownAt known (s.recast ρ) = knownAt known s := by
  cases s with
  | counted counter body closing span =>
    exact congrArg known.insert counter.name.folded_recast
  | _ => rfl

theorem readsOf_recast (s : Statement) :
    readsOf seeds known (s.recast ρ) = (readsOf seeds known s).map (Finding.recast ρ) := by
  rw [readsOf, readsOf, Statement.referenced_recast, List.filter_map, List.map_map, List.map_map]
  have hdefined : (fun i => !isDefined seeds known i) ∘ Ident.recast ρ =
      fun i => !isDefined seeds known i :=
    funext fun i => congrArg (!·) (isDefined_recast seeds known i)
  rw [hdefined]
  rfl

/-- Two ways to enter subroutines, of which the second enters what is written anew. -/
def Echoes (ρ : Recast) (gosub gosub' : String → NameSet → NameSet × List Finding) : Prop :=
  ∀ name known, gosub' (ρ.text name) known =
    ((gosub name known).1, (gosub name known).2.map (Finding.recast ρ))

variable {gosub gosub' : String → NameSet → NameSet × List Finding}

mutual

theorem effect_recast (hgosub : Echoes ρ gosub gosub') (known : NameSet) :
    ∀ s : Statement, effect seeds gosub' known (s.recast ρ) =
      ((effect seeds gosub known s).1, (effect seeds gosub known s).2.map (Finding.recast ρ))
  -- only a call depends on a text, and the calls give the same by hypothesis
  | .action form span => by
    cases form with
    | gosub name =>
      show (let (proven, findings) := gosub' (ρ.text name.name) known
        (Outcome.goesOn proven, findings)) = _
      rw [hgosub]
      rfl
    | onJump jump selector labels =>
      cases jump with
      | goto => rfl
      | gosub =>
        have hfindings :
            (labels.map (Ident.recast ρ)).flatMap (fun name => (gosub' name.name known).2) =
              (labels.flatMap fun name => (gosub name.name known).2).map (Finding.recast ρ) := by
          rw [List.flatMap_map, List.map_flatMap]
          exact congrArg labels.flatMap
            (funext fun name => congrArg Prod.snd (hgosub name.name known))
        exact congrArg (Outcome.goesOn ∅, ·) hfindings
    | _ => rfl
  | .decision test thenArm elseArm span => by
    rw [Statement.recast, effect, effect, walkArm_recast hgosub, walkArm_recast hgosub]
    exact congrArg (_, ·) List.map_append.symm
  | .counted counter body closing span => by
    rw [Statement.recast, effect, effect, walk_recast hgosub]
    rfl
  | .loop body span => by
    rw [Statement.recast, effect, effect, walk_recast hgosub]
    rfl
  | .choice arms span => by
    rw [Statement.recast, effect, effect, findingsInArms_recast hgosub]

theorem walkArm_recast (hgosub : Echoes ρ gosub gosub') (known : NameSet) :
    ∀ arm : Option (List Statement), walkArm seeds gosub' known (recastArm ρ arm) =
      (walkArm seeds gosub known arm).recast ρ
  | none => rfl
  | some body => by rw [recastArm, walkArm, walkArm, walk_recast hgosub]

theorem walk_recast (hgosub : Echoes ρ gosub gosub') (stopsAtReturn : Bool) (known : NameSet) :
    ∀ body : List Statement, walk seeds gosub' stopsAtReturn known (Block.recast ρ body) =
      (walk seeds gosub stopsAtReturn known body).recast ρ
  | [] => rfl
  | s :: rest => by
    rw [Block.recast, walk, walk, knownAt_recast, readsOf_recast, Statement.assigned_recast,
      effect_recast hgosub]
    rcases effect seeds gosub (knownAt known s ∪ addAll s.assigned ∅) s with ⟨outcome, inner⟩
    cases outcome with
    | goesOn proven =>
      dsimp only
      rw [walk_recast hgosub]
      simp only [Flow.recast, List.map_append]
    | returns =>
      dsimp only
      rw [walk_recast hgosub]
      split <;> simp only [Flow.recast, List.map_append]
    | armsReturn => simp only [Flow.recast, List.map_append]

theorem findingsInArms_recast (hgosub : Echoes ρ gosub gosub') (known : NameSet) :
    ∀ arms : List CaseArm, findingsInArms seeds gosub' known (recastCases ρ arms) =
      (findingsInArms seeds gosub known arms).map (Finding.recast ρ)
  | [] => rfl
  | .mk cond body span :: rest => by
    rw [recastCases, findingsInArms, findingsInArms, walk_recast hgosub,
      findingsInArms_recast hgosub, List.map_append]
    rfl

end

/-- What a `gosub` makes certain is the same, and what it finds is written anew. -/
theorem echoes_gosubFlow {p q : Procedure} (h : p.Recasts ρ q) (idle : List String) :
    Echoes ρ (gosubFlow p seeds idle) (gosubFlow q seeds idle) := by
  intro name known
  rw [gosubFlow, gosubFlow, ρ.fold_text, h.afterLabel?]
  by_cases hidle : Text.fold name ∈ idle
  · rw [dif_pos hidle, dif_pos hidle]
    cases p.afterLabel? name with
    | none => rfl
    | some body =>
      have hinner := echoes_gosubFlow h (idle.erase (Text.fold name))
      show ((walk seeds _ true known (body.map (Statement.recast ρ))).assigned,
        (walk seeds _ true known (body.map (Statement.recast ρ))).findings) = _
      rw [← Block.recast_eq, walk_recast seeds hinner]
      rfl
  · rw [dif_neg hidle, dif_neg hidle]
    rfl
termination_by idle.length
decreasing_by
  rw [List.length_erase_of_mem hidle]
  have := List.length_pos_of_mem hidle
  omega

/-- Reads that stand in different places, also when they are written anew. -/
def Apart (ρ : Recast) (found : List Finding) : Prop :=
  ∀ a ∈ found, ∀ b ∈ found,
    a.ident.span.recast ρ = b.ident.span.recast ρ → a.ident.span = b.ident.span

/-- Findings that stand in one place still do when they are written anew, so that the same are left
    out. -/
theorem eraseDupsBy_recast (found : List Finding) (hapart : Apart ρ found) :
    (found.map (Finding.recast ρ)).eraseDupsBy (fun a b => a.ident.span == b.ident.span) =
      (found.eraseDupsBy fun a b => a.ident.span == b.ident.span).map (Finding.recast ρ) := by
  match found with
  | [] => rfl
  | first :: rest =>
    have hsame : ∀ a ∈ rest, (a.ident.span.recast ρ == first.ident.span.recast ρ) =
        (a.ident.span == first.ident.span) := by
      intro a ha
      rw [Bool.eq_iff_iff, beq_iff_eq, beq_iff_eq]
      exact ⟨hapart a (List.mem_cons_of_mem _ ha) first List.mem_cons_self, congrArg _⟩
    have hfilter : rest.filter
          ((fun a => decide ((a.ident.span == (first.recast ρ).ident.span) = false)) ∘
            Finding.recast ρ) =
        rest.filter fun a => decide ((a.ident.span == first.ident.span) = false) :=
      List.filter_congr fun a ha => congrArg (fun same => decide (same = false)) (hsame a ha)
    have hrest : Apart ρ (rest.filter fun a =>
        decide ((a.ident.span == first.ident.span) = false)) := fun a ha b hb =>
      hapart a (List.mem_cons_of_mem _ (List.mem_of_mem_filter ha)) b
        (List.mem_cons_of_mem _ (List.mem_of_mem_filter hb))
    rw [List.map_cons, List.eraseDupsBy_cons, List.eraseDupsBy_cons, List.map_cons, List.filter_map,
      hfilter, eraseDupsBy_recast _ hrest]
termination_by found.length
decreasing_by exact Nat.lt_succ_of_le (List.length_filter_le _ _)

end Assignment

open Assignment in
/-- **The reads that may be unassigned** are written anew, if identifiers that stand in different
    places still do. -/
theorem Procedure.Recasts.unassigned {p q : Procedure} (h : p.Recasts ρ q)
    (hapart : ∀ s ∈ Block.all p.body, ∀ i ∈ s.referenced, ∀ t ∈ Block.all p.body,
      ∀ j ∈ t.referenced, i.span.recast ρ = j.span.recast ρ → i.span = j.span) :
    q.unassigned = p.unassigned.map (Finding.recast ρ) := by
  have hsort (found : List Assignment.Finding) :
      (found.mergeSort fun a b => a.ident.span.start ≤ b.ident.span.start).map (Finding.recast ρ) =
        (found.map (Finding.recast ρ)).mergeSort fun a b =>
          a.ident.span.start ≤ b.ident.span.start :=
    List.map_mergeSort fun a _ b _ =>
      decide_eq_decide.mpr (ρ.place_le a.ident.span.start b.ident.span.start).symm
  have hwalk : walk (seedsOf p) (gosubFlow q (seedsOf p) p.labels.names) false ∅ q.body =
      (walk (seedsOf p) (gosubFlow p (seedsOf p) p.labels.names) false ∅ p.body).recast ρ := by
    rw [h.body, ← Block.recast_eq, walk_recast _ (echoes_gosubFlow _ h _)]
  have hfound : Apart ρ
      (walk (seedsOf p) (gosubFlow p (seedsOf p) p.labels.names) false ∅ p.body).findings := by
    intro a ha b hb
    obtain ⟨hstatement, hident, -⟩ := p.reads_walk_body a ha
    obtain ⟨hstatement', hident', -⟩ := p.reads_walk_body b hb
    exact hapart _ hstatement _ hident _ hstatement' _ hident'
  unfold Procedure.unassigned
  dsimp only
  rw [seedsOf_recast h, h.labels, hwalk, hsort, ← eraseDupsBy_recast _ hfound]
  rfl

/-! ## 4. All findings -/

/-- The finding that is written anew. -/
def Finding.recast (ρ : Recast) : Finding → Finding
  | unreachable s => unreachable (s.recast ρ)
  | unassigned read => unassigned (read.recast ρ)

@[simp] theorem Finding.code_recast (f : Finding) : (f.recast ρ).code = f.code := by
  cases f <;> rfl

@[simp] theorem Finding.span_recast (f : Finding) : (f.recast ρ).span = f.span.recast ρ := by
  cases f with
  | unreachable s => exact s.span_recast
  | unassigned read => rfl

namespace Procedure.Recasts

variable {p q : Procedure}

theorem hasErrors (h : p.Recasts ρ q) : q.hasErrors = p.hasErrors := by
  have hany (found : List Diagnostic) {f : Diagnostic → Diagnostic}
      (hf : ∀ d, (f d).isError = d.isError) :
      (found.map f).any Diagnostic.isError = found.any Diagnostic.isError := by
    rw [List.any_map]
    exact congrArg found.any (funext hf)
  rw [Procedure.hasErrors, Procedure.hasErrors, ← hany q.diagnostics (f := Diagnostic.reworded ρ)
    fun _ => rfl, h.diagnostics, hany p.diagnostics (f := Diagnostic.recast ρ) fun _ => rfl]

/-- **What the analyses find** is written anew. -/
theorem findings (h : p.Recasts ρ q) (options : CheckOptions)
    (hapart : ∀ s ∈ Block.all p.body, ∀ i ∈ s.referenced, ∀ t ∈ Block.all p.body,
      ∀ j ∈ t.referenced, i.span.recast ρ = j.span.recast ρ → i.span = j.span) :
    q.findings options = (p.findings options).map (Finding.recast ρ) := by
  rw [Procedure.findings, Procedure.findings, h.hasErrors, h.unreachable, h.unassigned hapart]
  split
  · rfl
  · rw [List.map_append]
    congr 1
    · split
      · rw [List.map_map, List.map_map]
        rfl
      · rfl
    · split
      · rw [List.map_map, List.map_map]
        rfl
      · rfl

end Procedure.Recasts

/-! ## 5. Identifiers in different places -/

mutual

theorem Statement.within_recast :
    ∀ s : Statement, (s.recast ρ).within = s.within.map (Statement.recast ρ)
  | .action form span => rfl
  | .decision test thenArm elseArm span => by
    rw [Statement.recast, Statement.within, Statement.within, allInArm_recast, allInArm_recast,
      List.map_append]
  | .counted counter body closing span => by
    rw [Statement.recast, Statement.within, Statement.within, Block.all_recast]
  | .loop body span => by
    rw [Statement.recast, Statement.within, Statement.within, Block.all_recast]
  | .choice arms span => by
    rw [Statement.recast, Statement.within, Statement.within, allInArms_recast]

theorem allInArm_recast : ∀ arm : Option (List Statement),
    allInArm (recastArm ρ arm) = (allInArm arm).map (Statement.recast ρ)
  | none => rfl
  | some body => by rw [recastArm, allInArm, allInArm, Block.all_recast]

/-- The statements of a tree, at every depth, are written anew with it. -/
theorem Block.all_recast : ∀ body : List Statement,
    Block.all (Block.recast ρ body) = (Block.all body).map (Statement.recast ρ)
  | [] => rfl
  | s :: rest => by
    rw [Block.recast, Block.all, Block.all, Statement.within_recast, Block.all_recast,
      List.map_cons, List.map_append]

theorem allInArms_recast : ∀ arms : List CaseArm,
    allInArms (recastCases ρ arms) = (allInArms arms).map (Statement.recast ρ)
  | [] => rfl
  | .mk cond body span :: rest => by
    rw [recastCases, allInArms, allInArms, Block.all_recast, allInArms_recast, List.map_append]

end

/-- If the identifiers that are written anew stand in different places, those that stood in different
    places before still do. -/
theorem Procedure.Recasts.apart {p q : Procedure} (h : p.Recasts ρ q)
    (hnodup : (((Block.all q.body).flatMap Statement.idents).map Ident.span).Nodup) :
    ∀ s ∈ Block.all p.body, ∀ i ∈ s.referenced, ∀ t ∈ Block.all p.body, ∀ j ∈ t.referenced,
      i.span.recast ρ = j.span.recast ρ → i.span = j.span := by
  have hidents : ((Block.all q.body).flatMap Statement.idents).map Ident.span =
      ((Block.all p.body).flatMap Statement.idents).map fun i => i.span.recast ρ := by
    rw [h.body, ← Block.recast_eq, Block.all_recast, List.flatMap_map]
    simp only [Statement.idents_recast, ← List.map_flatMap, List.map_map]
    rfl
  rw [hidents] at hnodup
  intro s hs i hi t ht j hj heq
  have hsame : i = j := List.inj_on_of_nodup_map hnodup
    (List.mem_flatMap.mpr ⟨s, hs, Assignment.mem_idents_of_mem_referenced hi⟩)
    (List.mem_flatMap.mpr ⟨t, ht, Assignment.mem_idents_of_mem_referenced hj⟩) heq
  rw [hsame]

end BasicCheck
