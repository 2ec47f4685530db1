import Mathlib.Tactic.ByContra
import BasicCheck.Assignment

/-!
# Paths through statements

What can happen when statements without jumps are run: the reads and assignments on the way, in
their order, and how the statements are left. A statement first makes its own reads, then its own
assignments (`eventsOf`); then one of its arms is run, or the body of a loop any number of times
(`innerPaths`, `blockPaths`).

What is asked of paths (which reads they reach, which of these without an assignment before them,
which assignments none of them can avoid) is answered by the parts that they are put together from:
`exposes_andThen`, `assigns_andThen`, `exposes_repeated` and the like.
-/

namespace BasicCheck.Assignment

/-! ## 1. Paths -/

/-- What happens to variables on a path. -/
inductive Event where
  | read (what : Finding)
  | assign (name : String)

/-- How a path leaves the statements that it runs through. -/
inductive Exit where
  /-- Behind the last one. -/
  | on
  /-- Out of the innermost loop. -/
  | left
  /-- Out of the procedure. -/
  | returned

/-- A set of paths, each with the events on it and the way in which it ends. -/
abbrev Paths := List Event → Exit → Prop

namespace Paths

/-- The only path. -/
def once (events : List Event) (exit : Exit) : Paths :=
  fun path last => path = events ∧ last = exit

/-- The paths of two alternatives. -/
def either (P Q : Paths) : Paths :=
  fun path exit => P path exit ∨ Q path exit

/-- One path behind another, unless the first one ends otherwise than behind its last statement. -/
inductive andThen (P Q : Paths) : Paths where
  | on {a b : List Event} {exit : Exit} (first : P a .on) (second : Q b exit) :
    andThen P Q (a ++ b) exit
  | out {a : List Event} {exit : Exit} (first : P a exit) (hexit : exit ≠ .on) : andThen P Q a exit

/-- Any number of turns of a loop. -/
inductive repeated (P : Paths) : Paths where
  | done : repeated P [] .on
  | again {a b : List Event} {exit : Exit} (turn : P a .on) (turns : repeated P b exit) :
    repeated P (a ++ b) exit
  | left {a : List Event} (turn : P a .left) : repeated P a .on
  | returned {a : List Event} (turn : P a .returned) : repeated P a .returned

end Paths

/-- Reads that a statement makes. -/
def readsBy (s : Statement) (idents : List Ident) : List Event :=
  idents.map fun ident => .read ⟨ident, s⟩

/-- The reads of a statement, then its assignments. The `next` of a counting loop reads its variable,
    which has a value by then. -/
def eventsOf : Statement → List Event
  | .counted counter body closing span =>
    let s := Statement.counted counter body closing span
    readsBy s ((counter.expressions.flatMap Expr.idents).filter (·.role == .reference)) ++
      .assign counter.name.folded :: (readsBy s (s.names.filter (·.role == .reference)) ++
        s.assigned.map .assign)
  | s => readsBy s s.referenced ++ s.assigned.map .assign

mutual

/-- The paths through the blocks of a statement. -/
def innerPaths : Statement → Paths
  | .action (.return _) _ => .once [] .returned
  | .action (.loopCondition _ _) _ => .either (.once [] .on) (.once [] .left)
  | .action _ _ => .once [] .on
  | .decision _ thenArm elseArm _ => .either (armPaths thenArm) (armPaths elseArm)
  | .counted _ body _ _ => .repeated (blockPaths body)
  | .loop body _ => .repeated (blockPaths body)
  | .choice arms _ => casePaths arms

/-- The paths through an arm. -/
def armPaths : Option (List Statement) → Paths
  | none => .once [] .on
  | some body => blockPaths body

/-- The paths through a block. -/
def blockPaths : List Statement → Paths
  | [] => .once [] .on
  | s :: rest => .andThen (.andThen (.once (eventsOf s) .on) (innerPaths s)) (blockPaths rest)

/-- The paths through one arm of a choice, or through none. -/
def casePaths : List CaseArm → Paths
  | [] => .once [] .on
  | .mk _ body _ :: rest => .either (blockPaths body) (casePaths rest)

end

/-! ## 2. Reads on a path -/

/-- A read that is made on a path without an assignment before it. -/
def Exposed (path : List Event) (r : Finding) : Prop :=
  ∃ before after, path = before ++ .read r :: after ∧ .assign r.ident.folded ∉ before

variable {r : Finding} {a b : List Event}

theorem Exposed.mem (h : Exposed a r) : .read r ∈ a := by
  obtain ⟨before, after, rfl, -⟩ := h
  exact List.mem_append_right _ List.mem_cons_self

theorem exposed_append :
    Exposed (a ++ b) r ↔ Exposed a r ∨ (.assign r.ident.folded ∉ a ∧ Exposed b r) := by
  constructor
  · rintro ⟨before, after, heq, hfree⟩
    rcases List.append_eq_append_iff.mp heq with ⟨c, hbefore, hb⟩ | ⟨c, ha, hrest⟩
    · rw [hbefore, List.mem_append, not_or] at hfree
      exact Or.inr ⟨hfree.1, c, after, hb, hfree.2⟩
    · rcases List.cons_eq_append_iff.mp hrest with ⟨rfl, hb⟩ | ⟨c', rfl, hafter⟩
      · rw [List.append_nil] at ha
        exact Or.inr ⟨ha ▸ hfree, [], after, hb, List.not_mem_nil⟩
      · exact Or.inl ⟨before, c', ha, hfree⟩
  · intro h
    rcases h with ⟨before, after, rfl, hfree⟩ | ⟨ha, before, after, rfl, hfree⟩
    · exact ⟨before, after ++ b, by rw [List.append_assoc, List.cons_append], hfree⟩
    · refine ⟨a ++ before, after, by rw [List.append_assoc], ?_⟩
      rw [List.mem_append, not_or]
      exact ⟨ha, hfree⟩

theorem read_mem_readsBy {s : Statement} {idents : List Ident} :
    .read r ∈ readsBy s idents ↔ r.ident ∈ idents ∧ r.statement = s := by
  unfold readsBy
  constructor
  · intro h
    obtain ⟨ident, hident, heq⟩ := List.mem_map.mp h
    cases heq
    exact ⟨hident, rfl⟩
  · rintro ⟨hident, rfl⟩
    exact List.mem_map.mpr ⟨r.ident, hident, rfl⟩

theorem assign_notMem_readsBy (name : String) (s : Statement) (idents : List Ident) :
    .assign name ∉ readsBy s idents := by
  unfold readsBy
  intro h
  obtain ⟨ident, -, heq⟩ := List.mem_map.mp h
  cases heq

theorem exposed_readsBy {s : Statement} {idents : List Ident} :
    Exposed (readsBy s idents) r ↔ r.ident ∈ idents ∧ r.statement = s := by
  constructor
  · intro h
    exact read_mem_readsBy.mp h.mem
  · intro h
    obtain ⟨before, after, heq⟩ := List.append_of_mem (read_mem_readsBy.mpr h)
    refine ⟨before, after, heq, fun hmem => ?_⟩
    refine assign_notMem_readsBy r.ident.folded s idents ?_
    rw [heq]
    exact List.mem_append_left _ hmem

theorem read_notMem_assigns (names : List String) : .read r ∉ names.map Event.assign := by
  intro h
  obtain ⟨name, -, heq⟩ := List.mem_map.mp h
  cases heq

theorem exposed_assign_cons {name : String} :
    Exposed (.assign name :: a) r ↔ r.ident.folded ≠ name ∧ Exposed a r := by
  rw [show Event.assign name :: a = [.assign name] ++ a from rfl, exposed_append]
  constructor
  · intro h
    rcases h with h | ⟨hne, h⟩
    · exact absurd (List.mem_singleton.mp h.mem) nofun
    · exact ⟨fun heq => hne (List.mem_singleton.mpr (by rw [heq])), h⟩
  · rintro ⟨hne, h⟩
    refine Or.inr ⟨fun hmem => hne ?_, h⟩
    injection List.mem_singleton.mp hmem

/-! ## 3. What sets of paths do -/

namespace Paths

/-- Some path ends behind the last statement. -/
def GoesOn (P : Paths) : Prop := ∃ path, P path .on

/-- There is a path. -/
def Alive (P : Paths) : Prop := ∃ path exit, P path exit

/-- A variable is assigned on every path that ends behind the last statement. -/
def Assigns (P : Paths) (name : String) : Prop := ∀ path, P path .on → .assign name ∈ path

/-- A read is made on some path. -/
def Reaches (P : Paths) (r : Finding) : Prop := ∃ path exit, P path exit ∧ .read r ∈ path

/-- A read is made on some path without an assignment before it. -/
def Exposes (P : Paths) (r : Finding) : Prop := ∃ path exit, P path exit ∧ Exposed path r

variable {P Q : Paths} {name : String} {events : List Event} {exit : Exit}

theorem Exposes.reaches (h : P.Exposes r) : P.Reaches r := by
  obtain ⟨path, exit, hpath, hread⟩ := h
  exact ⟨path, exit, hpath, hread.mem⟩

theorem GoesOn.alive (h : P.GoesOn) : P.Alive := by
  obtain ⟨path, hpath⟩ := h
  exact ⟨path, .on, hpath⟩

/-! ### The only path -/

theorem alive_once : (once events exit).Alive := ⟨events, exit, rfl, rfl⟩

theorem goesOn_once_on : (once events .on).GoesOn := ⟨events, rfl, rfl⟩

theorem assigns_once_on : (once events .on).Assigns name ↔ .assign name ∈ events := by
  constructor
  · intro h
    exact h events ⟨rfl, rfl⟩
  · rintro h path ⟨rfl, -⟩
    exact h

theorem reaches_once : (once events exit).Reaches r ↔ .read r ∈ events := by
  constructor
  · rintro ⟨path, last, ⟨rfl, -⟩, h⟩
    exact h
  · intro h
    exact ⟨events, exit, ⟨rfl, rfl⟩, h⟩

theorem exposes_once : (once events exit).Exposes r ↔ Exposed events r := by
  constructor
  · rintro ⟨path, last, ⟨rfl, -⟩, h⟩
    exact h
  · intro h
    exact ⟨events, exit, ⟨rfl, rfl⟩, h⟩

/-! ### Alternatives -/

theorem Alive.either (h : P.Alive) : (P.either Q).Alive := by
  obtain ⟨path, exit, hpath⟩ := h
  exact ⟨path, exit, Or.inl hpath⟩

theorem goesOn_either : (P.either Q).GoesOn ↔ P.GoesOn ∨ Q.GoesOn := exists_or

theorem assigns_either : (P.either Q).Assigns name ↔ P.Assigns name ∧ Q.Assigns name := by
  constructor
  · intro h
    exact ⟨fun path hpath => h path (Or.inl hpath), fun path hpath => h path (Or.inr hpath)⟩
  · rintro ⟨hP, hQ⟩ path hpath
    rcases hpath with hpath | hpath
    · exact hP path hpath
    · exact hQ path hpath

theorem reaches_either : (P.either Q).Reaches r ↔ P.Reaches r ∨ Q.Reaches r := by
  unfold Reaches either
  simp only [or_and_right, exists_or]

theorem exposes_either : (P.either Q).Exposes r ↔ P.Exposes r ∨ Q.Exposes r := by
  unfold Exposes either
  simp only [or_and_right, exists_or]

/-! ### Sequences -/

theorem Alive.andThen (hP : P.Alive) (hQ : Q.Alive) : (P.andThen Q).Alive := by
  obtain ⟨a, exit, ha⟩ := hP
  obtain ⟨b, last, hb⟩ := hQ
  by_cases hexit : exit = .on
  · subst hexit
    exact ⟨a ++ b, last, .on ha hb⟩
  · exact ⟨a, exit, .out ha hexit⟩

theorem goesOn_andThen : (P.andThen Q).GoesOn ↔ P.GoesOn ∧ Q.GoesOn := by
  constructor
  · rintro ⟨path, hpath⟩
    cases hpath with
    | on first second => exact ⟨⟨_, first⟩, ⟨_, second⟩⟩
    | out first hexit => exact absurd rfl hexit
  · rintro ⟨⟨a, ha⟩, ⟨b, hb⟩⟩
    exact ⟨a ++ b, .on ha hb⟩

theorem assigns_andThen : (P.andThen Q).Assigns name ↔ P.Assigns name ∨ Q.Assigns name := by
  constructor
  · intro h
    by_contra hneither
    simp only [Assigns, not_or, not_forall] at hneither
    obtain ⟨⟨a, ha, hfreeA⟩, ⟨b, hb, hfreeB⟩⟩ := hneither
    rcases List.mem_append.mp (h _ (.on ha hb)) with hmem | hmem
    · exact hfreeA hmem
    · exact hfreeB hmem
  · intro h path hpath
    cases hpath with
    | on first second =>
      rcases h with h | h
      · exact List.mem_append_left _ (h _ first)
      · exact List.mem_append_right _ (h _ second)
    | out first hexit => exact absurd rfl hexit

theorem Reaches.of_andThen (h : (P.andThen Q).Reaches r) : P.Reaches r ∨ Q.Reaches r := by
  obtain ⟨path, exit, hpath, hread⟩ := h
  cases hpath with
  | on first second =>
    rcases List.mem_append.mp hread with hread | hread
    · exact Or.inl ⟨_, _, first, hread⟩
    · exact Or.inr ⟨_, _, second, hread⟩
  | out first hexit => exact Or.inl ⟨_, _, first, hread⟩

/-- Behind statements that are never left at their end, nothing is reached. -/
theorem Reaches.of_andThen_of_not_goesOn (h : (P.andThen Q).Reaches r) (hP : ¬ P.GoesOn) :
    P.Reaches r := by
  obtain ⟨path, exit, hpath, hread⟩ := h
  cases hpath with
  | on first second => exact absurd ⟨_, first⟩ hP
  | out first hexit => exact ⟨_, _, first, hread⟩

/-- **A read is exposed in a sequence** if it is in the first part, or in the second and the first
    part can be passed without an assignment. -/
theorem exposes_andThen (hQ : Q.Alive) : (P.andThen Q).Exposes r ↔
    P.Exposes r ∨ (¬ P.Assigns r.ident.folded ∧ Q.Exposes r) := by
  constructor
  · rintro ⟨path, exit, hpath, hread⟩
    cases hpath with
    | on first second =>
      rcases exposed_append.mp hread with hread | ⟨hfree, hread⟩
      · exact Or.inl ⟨_, _, first, hread⟩
      · exact Or.inr ⟨fun hall => hfree (hall _ first), _, _, second, hread⟩
    | out first hexit => exact Or.inl ⟨_, _, first, hread⟩
  · intro h
    rcases h with ⟨a, exit, ha, hread⟩ | ⟨hfree, b, exit, hb, hread⟩
    · by_cases hexit : exit = .on
      · subst hexit
        obtain ⟨b, last, hb⟩ := hQ
        exact ⟨a ++ b, last, .on ha hb, exposed_append.mpr (Or.inl hread)⟩
      · exact ⟨a, exit, .out ha hexit, hread⟩
    · simp only [Assigns, not_forall] at hfree
      obtain ⟨a, ha, hfree⟩ := hfree
      exact ⟨a ++ b, exit, .on ha hb, exposed_append.mpr (Or.inr ⟨hfree, hread⟩)⟩

/-! ### Loops -/

theorem goesOn_repeated : (repeated P).GoesOn := ⟨[], .done⟩

theorem not_assigns_repeated : ¬ (repeated P).Assigns name :=
  fun h => absurd (h [] .done) List.not_mem_nil

/-- A path through one turn is one through the loop. -/
theorem exists_repeated (h : P a exit) : ∃ last, repeated P a last := by
  cases exit with
  | on => exact ⟨.on, List.append_nil a ▸ .again h .done⟩
  | left => exact ⟨.on, .left h⟩
  | returned => exact ⟨.returned, .returned h⟩

/-- What is not so of nothing, and of two stretches together only if it is of one of them, is so of
    some path through the loop if and only if it is of some path through one turn. -/
theorem exists_path_repeated {p : List Event → Prop} (hnil : ¬ p [])
    (happend : ∀ a b, p (a ++ b) → p a ∨ p b) :
    (∃ path exit, repeated P path exit ∧ p path) ↔ ∃ path exit, P path exit ∧ p path := by
  constructor
  · rintro ⟨path, exit, hpath, hso⟩
    induction hpath with
    | done => exact absurd hso hnil
    | again turn turns ih =>
      rcases happend _ _ hso with hfirst | hlater
      · exact ⟨_, _, turn, hfirst⟩
      · exact ih hlater
    | left turn => exact ⟨_, _, turn, hso⟩
    | returned turn => exact ⟨_, _, turn, hso⟩
  · rintro ⟨path, exit, hpath, hso⟩
    obtain ⟨last, hlast⟩ := exists_repeated hpath
    exact ⟨path, last, hlast, hso⟩

theorem reaches_repeated : (repeated P).Reaches r ↔ P.Reaches r :=
  exists_path_repeated List.not_mem_nil fun _ _ => List.mem_append.mp

/-- **Later turns expose no further reads**: what a turn begins with can only be more than what the
    first one began with. -/
theorem exposes_repeated : (repeated P).Exposes r ↔ P.Exposes r :=
  exists_path_repeated (fun h => absurd h.mem List.not_mem_nil)
    fun _ _ h => (exposed_append.mp h).imp_right And.right

end Paths

end BasicCheck.Assignment
