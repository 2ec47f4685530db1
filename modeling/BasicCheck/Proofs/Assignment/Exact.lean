import Mathlib.Data.List.Nodup
import BasicCheck.Proofs.Assignment.Path
import BasicCheck.Proofs.Statement.Tree

/-!
# Exact findings

Over statements without labels and jumps, what the walk keeps is exact: it returns if no path goes on,
the variables that it keeps are those that no path can go on without assigning (`Flow.Fits`), and of
the reads that are reached it finds those that are exposed (`Exact`). Only where the bounds of a
counting loop read its own variable it does not (`Finding.OfOwnCounter`), and what is said of all other
reads is put together from the statements (`Faithful`). Findings are told apart by their statements,
since the walk also looks at statements behind a `return`, which no path reaches.

Each way of putting paths together has its rule (`Faithful.andThen`, `Faithful.stop`,
`Faithful.either`, `Faithful.repeated`), and so have the reads that a statement makes itself
(`faithful_readsOf`).
-/

namespace BasicCheck

/-- No label and no jump. -/
def Statement.isJumpFree : Statement → Bool
  | .action (.label _) _ | .action (.goto _) _ | .action (.gosub _) _
  | .action (.onJump _ _ _) _ => false
  | _ => true

/-- No label and no jump, and no counting loop whose bounds read its own variable. -/
def Statement.isStructured : Statement → Bool
  | .action (.label _) _ | .action (.goto _) _ | .action (.gosub _) _
  | .action (.onJump _ _ _) _ => false
  | .counted counter _ _ _ => (counter.expressions.flatMap Expr.idents).all fun ident =>
    ident.role != .reference || ident.folded != counter.name.folded
  | _ => true

theorem Statement.isJumpFree_of_isStructured {s : Statement} (h : s.isStructured = true) :
    s.isJumpFree = true := by
  cases s with
  | action form span =>
    cases form with
    | label | goto | gosub | onJump => cases h
    | _ => rfl
  | _ => rfl

namespace Assignment

/-- A read of its own variable in the bounds of a counting loop. -/
def Finding.OfOwnCounter (r : Finding) : Prop :=
  match r.statement with
  | .counted counter _ _ _ =>
    r.ident ∈ (counter.expressions.flatMap Expr.idents).filter (·.role == .reference) ∧
      r.ident.folded = counter.name.folded
  | _ => False

theorem not_ofOwnCounter_of_isStructured {r : Finding} (h : r.statement.isStructured = true) :
    ¬ r.OfOwnCounter := by
  obtain ⟨ident, s⟩ := r
  cases s with
  | counted counter body closing span =>
    rintro ⟨hmem, hname⟩
    obtain ⟨hmem, hrole⟩ := List.mem_filter.mp hmem
    have hident := List.all_eq_true.mp h ident hmem
    simp only [hname, bne_self_eq_false, Bool.or_false, bne_iff_ne] at hident
    exact hident (eq_of_beq hrole)
  | _ => exact id

/-! ## 1. Known names -/

theorem mem_addAll {names : List String} {known : NameSet} {name : String} :
    name ∈ addAll names known ↔ name ∈ names ∨ name ∈ known := by
  unfold addAll
  induction names generalizing known with
  | nil => simp
  | cons first rest ih =>
    rw [List.foldl_cons, ih, Std.ExtTreeSet.mem_insert, Std.LawfulEqCmp.compare_eq_iff_eq,
      List.mem_cons]
    grind

theorem mem_addAll_empty {names : List String} {name : String} :
    name ∈ addAll names ∅ ↔ name ∈ names := by
  rw [mem_addAll]
  exact or_iff_left Std.ExtTreeSet.not_mem_empty

variable {seeds known known' : NameSet}

theorem isDefined_eq_false {ident : Ident} : isDefined seeds known ident = false ↔
    ident.folded ∉ known ∧ isDefined seeds ∅ ident = false := by
  have hempty : (∅ : NameSet).contains ident.folded = false := rfl
  simp only [isDefined, hempty, Bool.or_eq_false_iff, true_and, and_assoc]
  rw [← Bool.not_eq_true, Std.ExtTreeSet.contains_iff_mem]

theorem mem_knownAt_union {s : Statement} {name : String} :
    name ∈ knownAt known s ∪ addAll s.assigned ∅ ↔ name ∈ known ∨ .assign name ∈ eventsOf s := by
  have hreads := assign_notMem_readsBy name s
  rw [Std.ExtTreeSet.mem_union_iff, mem_addAll_empty]
  cases s with
  | counted counter body closing span =>
    simp only [knownAt, eventsOf, Std.ExtTreeSet.mem_insert, Std.LawfulEqCmp.compare_eq_iff_eq,
      List.mem_append, List.mem_cons, hreads, List.mem_map, false_or, Event.assign.injEq,
      exists_eq_right]
    grind
  | _ => simp only [knownAt, eventsOf, List.mem_append, hreads, List.mem_map, false_or,
      Event.assign.injEq, exists_eq_right]

/-! ## 2. Exact findings -/

/-- Findings in some statements that are exact for the paths through them. -/
structure Exact (seeds known : NameSet) (statements : List Statement) (found : List Finding)
    (P : Paths) : Prop where
  within {r : Finding} : r ∈ found → r.statement ∈ statements ∧ r.ident ∈ r.statement.referenced
  found_iff {r : Finding} : P.Reaches r →
    (r ∈ found ↔ P.Exposes r ∧ isDefined seeds known r.ident = false)

/-- Findings in some statements that are exact for the paths through them, but for what counting loops
    read of their own variables. -/
structure Faithful (seeds known : NameSet) (statements : List Statement) (found : List Finding)
    (P : Paths) : Prop where
  alive : P.Alive
  within {r : Finding} : r ∈ found → r.statement ∈ statements ∧ r.ident ∈ r.statement.referenced
  passed {r : Finding} : P.Reaches r → r.statement ∈ statements
  found_iff {r : Finding} : P.Reaches r → ¬ r.OfOwnCounter →
    (r ∈ found ↔ P.Exposes r ∧ isDefined seeds known r.ident = false)

/-- Where no bounds read their own variable, nothing is left out. -/
theorem Faithful.exact {statements : List Statement} {found : List Finding} {P : Paths}
    (h : Faithful seeds known statements found P)
    (hstructured : ∀ s ∈ statements, s.isStructured = true) :
    Exact seeds known statements found P :=
  ⟨h.within, fun hreach =>
    h.found_iff hreach (not_ofOwnCounter_of_isStructured (hstructured _ (h.passed hreach)))⟩

namespace Faithful

variable {here there : List Statement} {found more : List Finding} {P Q : Paths}

/-- Statements on whose only path nothing is read. -/
theorem pass : Faithful seeds known here [] (.once [] exit) where
  alive := Paths.alive_once
  within h := absurd h List.not_mem_nil
  passed h := absurd (Paths.reaches_once.mp h) List.not_mem_nil
  found_iff h _ := absurd (Paths.reaches_once.mp h) List.not_mem_nil

/-- A finding of the first statements is not reached in the other ones. -/
theorem reaches_left (hP : Faithful seeds known here found P) (hQ : Faithful seeds known' there more Q)
    (hapart : here.Disjoint there) {r : Finding} (hfound : r ∈ found)
    (h : P.Reaches r ∨ Q.Reaches r) : P.Reaches r := by
  rcases h with h | h
  · exact h
  · exact absurd (hQ.passed h) (hapart (hP.within hfound).1)

/-- **One after the other**: what is known behind the first statements is what was known before them
    and what no path goes on without assigning. -/
theorem andThen (hP : Faithful seeds known here found P) (hQ : Faithful seeds known' there more Q)
    (hknown : ∀ name, name ∈ known' ↔ name ∈ known ∨ P.Assigns name)
    (hapart : here.Disjoint there) :
    Faithful seeds known (here ++ there) (found ++ more) (P.andThen Q) where
  alive := hP.alive.andThen hQ.alive
  within h := by
    rcases List.mem_append.mp h with h | h
    · exact ⟨List.mem_append_left _ (hP.within h).1, (hP.within h).2⟩
    · exact ⟨List.mem_append_right _ (hQ.within h).1, (hQ.within h).2⟩
  passed h := by
    rcases h.of_andThen with h | h
    · exact List.mem_append_left _ (hP.passed h)
    · exact List.mem_append_right _ (hQ.passed h)
  found_iff {r} h hother := by
    -- open in the second part is what is open in the first and not assigned on every path through it
    have hopen : isDefined seeds known' r.ident = false ↔
        ¬ P.Assigns r.ident.folded ∧ isDefined seeds known r.ident = false := by
      rw [isDefined_eq_false, @isDefined_eq_false seeds known, hknown, not_or]
      tauto
    rw [List.mem_append, Paths.exposes_andThen hQ.alive]
    constructor
    · intro hfound
      rcases hfound with hfound | hfound
      · have hreach := reaches_left hP hQ hapart hfound h.of_andThen
        obtain ⟨hexposed, hfree⟩ := (hP.found_iff hreach hother).mp hfound
        exact ⟨Or.inl hexposed, hfree⟩
      · have hreach := reaches_left hQ hP (List.disjoint_symm hapart) hfound h.of_andThen.symm
        obtain ⟨hexposed, hfree⟩ := (hQ.found_iff hreach hother).mp hfound
        exact ⟨Or.inr ⟨(hopen.mp hfree).1, hexposed⟩, (hopen.mp hfree).2⟩
    · rintro ⟨hexposed | ⟨hpass, hexposed⟩, hfree⟩
      · exact Or.inl ((hP.found_iff hexposed.reaches hother).mpr ⟨hexposed, hfree⟩)
      · exact Or.inr ((hQ.found_iff hexposed.reaches hother).mpr ⟨hexposed, hopen.mpr ⟨hpass, hfree⟩⟩)

/-- **Behind statements that are never left at their end** the walk may find what it likes. -/
theorem stop (hP : Faithful seeds known here found P) (hout : ¬ P.GoesOn) (hQ : Q.Alive)
    (hmore : ∀ r ∈ more, r.statement ∈ there ∧ r.ident ∈ r.statement.referenced)
    (hapart : here.Disjoint there) :
    Faithful seeds known (here ++ there) (found ++ more) (P.andThen Q) where
  alive := hP.alive.andThen hQ
  within h := by
    rcases List.mem_append.mp h with h | h
    · exact ⟨List.mem_append_left _ (hP.within h).1, (hP.within h).2⟩
    · exact ⟨List.mem_append_right _ (hmore _ h).1, (hmore _ h).2⟩
  passed h := List.mem_append_left _ (hP.passed (h.of_andThen_of_not_goesOn hout))
  found_iff {r} h hother := by
    have hreach := h.of_andThen_of_not_goesOn hout
    have hall : P.Assigns r.ident.folded := fun path hpath => absurd ⟨path, hpath⟩ hout
    have hnone : r ∉ more := fun hmem => hapart (hP.passed hreach) (hmore r hmem).1
    rw [List.mem_append, Paths.exposes_andThen hQ, or_iff_left hnone,
      or_iff_left fun hboth => hboth.1 hall]
    exact hP.found_iff hreach hother

/-- **One or the other.** -/
theorem either (hP : Faithful seeds known here found P) (hQ : Faithful seeds known there more Q)
    (hapart : here.Disjoint there) :
    Faithful seeds known (here ++ there) (found ++ more) (P.either Q) where
  alive := hP.alive.either
  within h := by
    rcases List.mem_append.mp h with h | h
    · exact ⟨List.mem_append_left _ (hP.within h).1, (hP.within h).2⟩
    · exact ⟨List.mem_append_right _ (hQ.within h).1, (hQ.within h).2⟩
  passed h := by
    rcases Paths.reaches_either.mp h with h | h
    · exact List.mem_append_left _ (hP.passed h)
    · exact List.mem_append_right _ (hQ.passed h)
  found_iff {r} h hother := by
    rw [List.mem_append, Paths.exposes_either]
    constructor
    · intro hfound
      rcases hfound with hfound | hfound
      · have hreach := reaches_left hP hQ hapart hfound (Paths.reaches_either.mp h)
        obtain ⟨hexposed, hfree⟩ := (hP.found_iff hreach hother).mp hfound
        exact ⟨Or.inl hexposed, hfree⟩
      · have hreach := reaches_left hQ hP (List.disjoint_symm hapart) hfound (Paths.reaches_either.mp h).symm
        obtain ⟨hexposed, hfree⟩ := (hQ.found_iff hreach hother).mp hfound
        exact ⟨Or.inr hexposed, hfree⟩
    · rintro ⟨hexposed | hexposed, hfree⟩
      · exact Or.inl ((hP.found_iff hexposed.reaches hother).mpr ⟨hexposed, hfree⟩)
      · exact Or.inr ((hQ.found_iff hexposed.reaches hother).mpr ⟨hexposed, hfree⟩)

/-- **Any number of turns.** -/
theorem repeated (hP : Faithful seeds known here found P) :
    Faithful seeds known here found (.repeated P) where
  alive := Paths.goesOn_repeated.alive
  within := hP.within
  passed h := hP.passed (Paths.reaches_repeated.mp h)
  found_iff h hother := by
    rw [Paths.exposes_repeated]
    exact hP.found_iff (Paths.reaches_repeated.mp h) hother

end Faithful

/-! ## 3. The reads of one statement -/

theorem mem_readsOf {s : Statement} {r : Finding} : r ∈ readsOf seeds known s ↔
    (r.ident ∈ s.referenced ∧ r.statement = s) ∧ isDefined seeds known r.ident = false := by
  unfold readsOf
  rw [List.mem_map]
  constructor
  · rintro ⟨ident, hident, rfl⟩
    obtain ⟨hmem, hfree⟩ := List.mem_filter.mp hident
    exact ⟨⟨hmem, rfl⟩, by simpa using hfree⟩
  · rintro ⟨⟨hmem, rfl⟩, hfree⟩
    exact ⟨r.ident, List.mem_filter.mpr ⟨hmem, by simpa using hfree⟩, rfl⟩

theorem notMem_knownAt {s : Statement} {name : String} :
    name ∉ knownAt known s ↔ name ∉ known ∧ name ∉ knownAt ∅ s := by
  cases s with
  | counted counter body closing span =>
    simp only [knownAt, Std.ExtTreeSet.mem_insert, Std.ExtTreeSet.not_mem_empty, or_false, not_or]
    exact and_comm
  | _ => simp only [knownAt, Std.ExtTreeSet.not_mem_empty, not_false_eq_true, and_true]

/-- The reads of a counting loop stand in its bounds and behind its `next`. -/
theorem mem_referenced_counted {counter : Counter} {body : List Statement} {closing : Option Ident}
    {span : Span} {ident : Ident} : ident ∈ (Statement.counted counter body closing span).referenced ↔
      ident ∈ (counter.expressions.flatMap Expr.idents).filter (·.role == .reference) ∨
      ident ∈ (Statement.counted counter body closing span).names.filter (·.role == .reference) := by
  simp only [Statement.referenced, Statement.idents, Statement.updatedTargets, Statement.expressions,
    List.filter_append, List.filterMap_nil, List.append_nil, List.mem_append]
  exact or_comm

theorem read_mem_eventsOf {s : Statement} {r : Finding} :
    .read r ∈ eventsOf s ↔ r.ident ∈ s.referenced ∧ r.statement = s := by
  cases s with
  | counted counter body closing span =>
    simp only [eventsOf, List.mem_append, List.mem_cons, read_mem_readsBy, read_notMem_assigns,
      mem_referenced_counted, reduceCtorEq, or_false, false_or]
    rw [or_and_right]
  | _ => simp only [eventsOf, List.mem_append, read_mem_readsBy, read_notMem_assigns, or_false]

theorem not_exposed_assigns {names : List String} {r : Finding} :
    ¬ Exposed (names.map .assign) r :=
  fun h => read_notMem_assigns names h.mem

/-- Only the `next` of a counting loop reads a variable behind an assignment of the same
    statement. -/
theorem exposed_eventsOf {s : Statement} {r : Finding} (hother : ¬ r.OfOwnCounter) :
    Exposed (eventsOf s) r ↔
      (r.ident ∈ s.referenced ∧ r.statement = s) ∧ r.ident.folded ∉ knownAt ∅ s := by
  cases s with
  | counted counter body closing span =>
    -- the bounds of a loop are read before its own variable is assigned, its `next` behind that
    have hbounds (hmem : r.ident ∈ (counter.expressions.flatMap Expr.idents).filter
        (·.role == .reference)) (hs : r.statement = .counted counter body closing span) :
        r.ident.folded ≠ counter.name.folded := by
      intro hname
      refine hother ?_
      unfold Finding.OfOwnCounter
      rw [hs]
      exact ⟨hmem, hname⟩
    have hself : r.ident.folded ∈ knownAt ∅ (.counted counter body closing span) ↔
        r.ident.folded = counter.name.folded := by
      rw [eq_comm (a := r.ident.folded)]
      simp only [knownAt, Std.ExtTreeSet.mem_insert, Std.LawfulEqCmp.compare_eq_iff_eq,
        Std.ExtTreeSet.not_mem_empty, or_false]
    have hassign := assign_notMem_readsBy r.ident.folded (.counted counter body closing span)
    rw [eventsOf, exposed_append, exposed_assign_cons, exposed_append, exposed_readsBy,
      exposed_readsBy, mem_referenced_counted, hself]
    simp only [hassign, not_exposed_assigns, and_false, or_false, not_false_eq_true, true_and]
    constructor
    · intro h
      rcases h with ⟨hmem, hs⟩ | ⟨hne, hmem, hs⟩
      · exact ⟨⟨Or.inl hmem, hs⟩, hbounds hmem hs⟩
      · exact ⟨⟨Or.inr hmem, hs⟩, hne⟩
    · rintro ⟨⟨hmem | hmem, hs⟩, hne⟩
      · exact Or.inl ⟨hmem, hs⟩
      · exact Or.inr ⟨hne, hmem, hs⟩
  | _ =>
    simp only [eventsOf, exposed_append, exposed_readsBy, not_exposed_assigns, and_false, or_false,
      knownAt, Std.ExtTreeSet.not_mem_empty, not_false_eq_true, and_true]

theorem faithful_readsOf {s : Statement} :
    Faithful seeds known [s] (readsOf seeds (knownAt known s) s) (.once (eventsOf s) .on) where
  alive := Paths.alive_once
  within h := by
    obtain ⟨⟨hmem, rfl⟩, -⟩ := mem_readsOf.mp h
    exact ⟨List.mem_singleton.mpr rfl, hmem⟩
  passed h := by
    obtain ⟨-, hs⟩ := read_mem_eventsOf.mp (Paths.reaches_once.mp h)
    exact List.mem_singleton.mpr hs
  found_iff h hother := by
    rw [mem_readsOf, Paths.exposes_once, exposed_eventsOf hother, isDefined_eq_false,
      @isDefined_eq_false seeds known, notMem_knownAt]
    tauto

end Assignment

end BasicCheck
