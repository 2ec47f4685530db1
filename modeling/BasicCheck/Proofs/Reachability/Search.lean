import Mathlib.Data.List.Nodup
import Mathlib.Logic.Relation
import BasicCheck.Reachability

/-!
# The search for labels

A search keeps the labels that it has visited and those that are pending. In each round it takes one of
the pending labels, no matter which, and drops it if it has visited it before; otherwise it visits it, and
the targets of its edges are pending as well (`Search.Round`).

Every round does one unit of work, and at the start there is one unit more than there are edges
(`Search.Round.work`); so every search ends. What is visited or pending can be reached along edges, and
edges lead from visited labels to such as are visited or pending (`Search.Fits`); so at the end exactly
the labels that can be reached have been visited (`Search.Fits.mem_visited_iff`). The search of the
analysis takes the first pending label (`Search.Rounds.exists_search`), and its result is the closure of
the edges (**`reachable_closure`**).
-/

namespace BasicCheck.Reachability

/-! ## 1. Rounds -/

/-- An edge leads from one label to another. -/
def Leads (edges : Edges) (a b : String) : Prop := (a, b) ∈ edges

theorem mem_targetsOf {edges : Edges} {a b : String} : b ∈ targetsOf edges a ↔ Leads edges a b := by
  simp [targetsOf, Leads]

/-- How far a search has come. -/
structure Search where
  visited : List String
  pending : List String

namespace Search

/-- The start of a procedure is pending. -/
def start : Search := ⟨[], [""]⟩

/-- One round of a search, which takes any of the pending labels. -/
inductive Round (edges : Edges) : Search → Search → Prop where
  /-- The label has been visited before. -/
  | skip {visited : List String} (before : List String) (label : String) (after : List String) :
    label ∈ visited → Round edges ⟨visited, before ++ label :: after⟩ ⟨visited, before ++ after⟩
  /-- The label is visited, and its targets are pending. -/
  | visit {visited : List String} (before : List String) (label : String) (after : List String) :
    label ∉ visited → Round edges ⟨visited, before ++ label :: after⟩
      ⟨label :: visited, before ++ (targetsOf edges label ++ after)⟩

/-- A number of rounds, one after the other. -/
inductive Rounds (edges : Edges) (first : Search) : Nat → Search → Prop where
  | none : Rounds edges first 0 first
  | more {n : Nat} {s t : Search} : Rounds edges first n s → Round edges s t →
    Rounds edges first (n + 1) t

variable {edges : Edges} {s t : Search}

/-- There is a further round as long as anything is pending. -/
theorem exists_round (h : s.pending ≠ []) : ∃ t, Round edges s t := by
  obtain ⟨visited, pending⟩ := s
  obtain ⟨label, rest, rfl⟩ := List.exists_cons_of_ne_nil h
  by_cases hvisited : label ∈ visited
  · exact ⟨_, .skip [] label rest hvisited⟩
  · exact ⟨_, .visit [] label rest hvisited⟩

/-- There is none where nothing is pending. -/
theorem not_round_of_pending (h : s.pending = []) : ¬ Round edges s t := by
  intro hround
  cases hround <;> exact List.append_ne_nil_of_right_ne_nil _ (List.cons_ne_nil _ _) h

/-! ## 2. Work -/

/-- The edges that have not been followed, and the labels that are pending. -/
def work (edges : Edges) (s : Search) : Nat := (openEdges edges s.visited).length + s.pending.length

/-- **Every round does one unit of the work**: a label that is visited brings in as many targets as it
    takes away edges. -/
theorem Round.work (h : Round edges s t) : t.work edges + 1 = s.work edges := by
  cases h with
  | skip before label after hvisited =>
    simp only [Search.work, List.length_append, List.length_cons]
    omega
  | @visit visited before label after hfresh =>
    have hopen := openEdges_cons edges label visited hfresh
    simp only [Search.work, List.length_append, List.length_cons]
    omega

theorem Rounds.work {n : Nat} (h : Rounds edges s n t) : t.work edges + n = s.work edges := by
  induction h with
  | none => rfl
  | more _ hround ih =>
    have := hround.work
    omega

theorem work_start : start.work edges = edges.length + 1 := by
  simp [Search.work, start, openEdges]

/-! ## 3. What is visited -/

/-- A label that has been found, whether it has been visited or not. -/
def Finds (s : Search) (label : String) : Prop := label ∈ s.visited ∨ label ∈ s.pending

/-- What holds throughout a search. -/
structure Fits (edges : Edges) (s : Search) : Prop where
  start : s.Finds ""
  reached {label : String} : s.Finds label → Relation.ReflTransGen (Leads edges) "" label
  followed {a b : String} : a ∈ s.visited → Leads edges a b → s.Finds b
  nodup : s.visited.Nodup

theorem fits_start : start.Fits edges where
  start := .inr List.mem_cons_self
  reached h := by
    rcases h with h | h
    · exact absurd h List.not_mem_nil
    · rw [List.mem_singleton.mp h]
  followed h := absurd h List.not_mem_nil
  nodup := List.nodup_nil

section Finds

variable {label other : String} {visited before after : List String}

/-- A label that is skipped has been visited, so it is still found. -/
theorem finds_skip (h : label ∈ visited) : Finds ⟨visited, before ++ after⟩ other ↔
    Finds ⟨visited, before ++ label :: after⟩ other := by
  simp only [Finds, List.mem_append, List.mem_cons]
  grind

/-- A label that is visited brings in its targets. -/
theorem finds_visit :
    Finds ⟨label :: visited, before ++ (targetsOf edges label ++ after)⟩ other ↔
      Finds ⟨visited, before ++ label :: after⟩ other ∨ Leads edges label other := by
  simp only [Finds, List.mem_append, List.mem_cons, mem_targetsOf]
  grind

end Finds

/-- **One round.** -/
theorem Fits.round (h : s.Fits edges) (hround : Round edges s t) : t.Fits edges := by
  cases hround with
  | skip before label after hvisited =>
    exact ⟨(finds_skip hvisited).mpr h.start, fun hfinds => h.reached ((finds_skip hvisited).mp hfinds),
      fun ha hleads => (finds_skip hvisited).mpr (h.followed ha hleads), h.nodup⟩
  | @visit visited before label after hfresh =>
    have hlabel : Relation.ReflTransGen (Leads edges) "" label :=
      h.reached (.inr (List.mem_append_right _ List.mem_cons_self))
    refine ⟨finds_visit.mpr (.inl h.start), fun hfinds => ?_, fun ha hleads => finds_visit.mpr ?_,
      List.nodup_cons.mpr ⟨hfresh, h.nodup⟩⟩
    · rcases finds_visit.mp hfinds with hfinds | hleads
      · exact h.reached hfinds
      · exact hlabel.tail hleads
    · rcases List.mem_cons.mp ha with rfl | ha
      · exact .inr hleads
      · exact .inl (h.followed ha hleads)

theorem Fits.rounds {n : Nat} (h : s.Fits edges) (hrounds : Rounds edges s n t) : t.Fits edges := by
  induction hrounds with
  | none => exact h
  | more _ hround ih => exact ih.round hround

/-- **At the end the labels that can be reached have been visited.** -/
theorem Fits.mem_visited_iff (h : s.Fits edges) (hend : s.pending = []) {label : String} :
    label ∈ s.visited ↔ Relation.ReflTransGen (Leads edges) "" label := by
  have hfinds {other : String} (hother : s.Finds other) : other ∈ s.visited := by
    rcases hother with hother | hother
    · exact hother
    · rw [hend] at hother
      exact absurd hother List.not_mem_nil
  constructor
  · exact fun hvisited => h.reached (.inl hvisited)
  · intro hreached
    induction hreached with
    | refl => exact hfinds h.start
    | tail _ hleads ih => exact hfinds (h.followed ih hleads)

/-! ## 4. The search of the analysis -/

/-- The analysis takes the first label that is pending. -/
theorem Rounds.exists_search (visited pending : List String) {n : Nat}
    (h : Rounds edges s n ⟨visited, pending⟩) :
    ∃ m, Rounds edges s m ⟨search edges visited pending, []⟩ := by
  fun_induction search edges visited pending generalizing n with
  | case1 visited => exact ⟨n, h⟩
  | case2 visited label pending hvisited ih => exact ih (h.more (.skip [] label pending hvisited))
  | case3 visited label pending hfresh ih => exact ih (h.more (.visit [] label pending hfresh))

theorem exists_rounds_reachable (edges : Edges) :
    ∃ n, Rounds edges start n ⟨reachable edges, []⟩ :=
  Rounds.exists_search [] [""] .none

end Search

/-- **What the search finds are the labels that edges lead to from the start.** -/
theorem mem_reachable_iff {edges : Edges} {label : String} :
    label ∈ reachable edges ↔ Relation.ReflTransGen (Leads edges) "" label := by
  obtain ⟨n, hrounds⟩ := Search.exists_rounds_reachable edges
  exact (Search.fits_start.rounds hrounds).mem_visited_iff rfl

/-- **The result of the search is the closure of the edges**, with no label twice. It is the result of a
    search that takes one pending label after the other; and whichever of them are taken, a search goes on
    for no more rounds than there are edges and one, and where there is no further round it has visited
    the same labels. -/
theorem reachable_closure (edges : Edges) :
    (∀ label, label ∈ reachable edges ↔ Relation.ReflTransGen (Leads edges) "" label) ∧
      (reachable edges).Nodup ∧
      (∃ n, Search.Rounds edges .start n ⟨reachable edges, []⟩) ∧
      ∀ n s, Search.Rounds edges .start n s → n ≤ edges.length + 1 ∧
        ((∀ t, ¬ Search.Round edges s t) → s.visited.Perm (reachable edges)) := by
  obtain ⟨n, hrounds⟩ := Search.exists_rounds_reachable edges
  have hfits := Search.fits_start.rounds hrounds
  refine ⟨fun label => mem_reachable_iff, hfits.nodup, ⟨n, hrounds⟩, fun m s hother => ⟨?_, ?_⟩⟩
  · have hwork := hother.work
    rw [Search.work_start] at hwork
    omega
  · intro hstuck
    have hend : s.pending = [] := by
      by_contra hpending
      obtain ⟨t, hround⟩ := Search.exists_round hpending
      exact hstuck t hround
    have hfitsOther := Search.fits_start.rounds hother
    refine (List.perm_ext_iff_of_nodup hfitsOther.nodup hfits.nodup).mpr fun label => ?_
    rw [hfitsOther.mem_visited_iff hend, mem_reachable_iff]

/-- Two labels that lead to each other, one of them twice, and an edge that nothing leads to. -/
def cycle : Edges := [("", "a"), ("a", "b"), ("b", "a"), ("b", "a"), ("c", "d")]

/-- From the start a search of the cycle visits three labels and drops the one that is pending twice. -/
theorem reachable_closure_cycle :
    Search.Rounds cycle .start 5 ⟨["b", "a", ""], []⟩ ∧ 5 ≤ cycle.length + 1 ∧
      ["b", "a", ""].Perm (reachable cycle) := by
  have hfirst : Search.Rounds cycle .start 1 ⟨[""], ["a"]⟩ :=
    .more .none (.visit [] "" [] (by decide))
  have hsecond : Search.Rounds cycle .start 2 ⟨["a", ""], ["b"]⟩ :=
    .more hfirst (.visit [] "a" [] (by decide))
  have hthird : Search.Rounds cycle .start 3 ⟨["b", "a", ""], ["a", "a"]⟩ :=
    .more hsecond (.visit [] "b" [] (by decide))
  have hrounds : Search.Rounds cycle .start 5 ⟨["b", "a", ""], []⟩ :=
    .more (.more hthird (.skip ["a"] "a" [] (by decide)))
      (.skip [] "a" [] (by decide))
  obtain ⟨-, -, -, hall⟩ := reachable_closure cycle
  obtain ⟨hbound, hend⟩ := hall 5 _ hrounds
  exact ⟨hrounds, hbound, hend fun t hround => Search.not_round_of_pending rfl hround⟩

end BasicCheck.Reachability
