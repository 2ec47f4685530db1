import BasicCheck.Proofs.Reachability.Unreachable

/-!
# Statements around labels

Every statement of a tree stands somewhere (`Stands`, `mem_all_iff_stands`), and where it stands settles
whether a statement that holds others is among the results: the walk goes on through a list until a
`return` or a `goto` and from the next label of that list on (`Ended`, `dead_inBlock_append`), and it
enters no block of a statement that it has found dead. So such a statement is returned if its own list
has been ended before it and none of the lists around has (**`Procedure.mem_unreachable_iff`**), whatever
stands in its blocks: also where a label in them is reached by a jump
(`Procedure.exists_unreachable_around_label`).
-/

namespace BasicCheck

namespace Reachability

/-! ## 1. Where statements stand -/

/-- Some statements of a list behind which the list does not go on: a `return` or a `goto` is among
    them, and no label stands behind it. -/
def Ended (front : List Statement) : Prop :=
  ∃ before last behind, front = before ++ last :: behind ∧ endsBlock last = true ∧
    ∀ t ∈ behind, t.isLabel = false

/-- A statement stands in a body, behind some statements of its own list, and the statements around it
    behind some of theirs, the outermost first. -/
inductive Stands : (body : List Statement) → (outer : List (List Statement)) →
    (own : List Statement) → (s : Statement) → Prop where
  | here (own rest : List Statement) (s : Statement) : Stands (own ++ s :: rest) [] own s
  | inside {front rest block own : List Statement} {outer : List (List Statement)}
      {t s : Statement} (hblock : block ∈ t.blocks) (h : Stands block outer own s) :
      Stands (front ++ t :: rest) (front :: outer) own s

variable {label : String} {front rest body own : List Statement} {outer : List (List Statement)}
  {s t : Statement}

theorem Stands.mem_all (h : Stands body outer own s) : s ∈ Block.all body := by
  induction h with
  | here own rest s =>
    exact Block.mem_all_of_mem (List.mem_append_right _ List.mem_cons_self)
  | inside hblock _ ih =>
    exact Block.all_subset_of_mem_blocks (List.mem_append_right _ List.mem_cons_self) hblock ih

theorem Stands.behind (h : Stands rest outer own s) (t : Statement) :
    ∃ outer own, Stands (t :: rest) outer own s := by
  cases h with
  | here own rest s => exact ⟨[], t :: own, .here (t :: own) rest s⟩
  | @inside front rest block own outer u s hblock h =>
    have hbehind : Stands ((t :: front) ++ u :: rest) ((t :: front) :: outer) own s :=
      .inside hblock h
    exact ⟨(t :: front) :: outer, own, hbehind⟩

/-- **Every statement of a tree stands somewhere.** -/
theorem mem_all_iff_stands : s ∈ Block.all body ↔ ∃ outer own, Stands body outer own s := by
  refine ⟨fun hs => ?_, fun ⟨outer, own, h⟩ => h.mem_all⟩
  -- the statements of a block are fewer than those of the tree that the block is in
  induction hn : (Block.all body).length using Nat.strongRecOn generalizing body with
  | ind n ih =>
    cases body with
    | nil => cases hs
    | cons t rest =>
      subst hn
      rw [Block.all, List.mem_cons, List.mem_append] at hs
      rcases hs with rfl | hwithin | hrest
      · exact ⟨[], [], .here [] rest s⟩
      · obtain ⟨block, hblock, hs⟩ := List.mem_flatMap.mp (t.within_eq ▸ hwithin)
        have hle := (t.sublist_within hblock).length_le
        have hless : (Block.all block).length < (Block.all (t :: rest)).length := by
          simp only [Block.all, List.length_cons, List.length_append]
          omega
        obtain ⟨outer, own, h⟩ := ih _ hless hs rfl
        have hinside : Stands ([] ++ t :: rest) ([] :: outer) own s := .inside hblock h
        exact ⟨[] :: outer, own, hinside⟩
      · have hless : (Block.all rest).length < (Block.all (t :: rest)).length := by
          simp only [Block.all, List.length_cons, List.length_append]
          omega
        obtain ⟨outer, own, h⟩ := ih _ hless hrest rfl
        exact h.behind t

/-! ## 2. The walk through a list -/

/-- Whether the walk takes what follows some statements of a list to be reached. -/
def goesOn (reached : Bool) : List Statement → Bool
  | [] => reached
  | s :: rest => goesOn (s.isLabel || (reached && !endsBlock s)) rest

theorem goesOn_eq_false {reached : Bool} : goesOn reached front = false ↔
    Ended front ∨ (reached = false ∧ ∀ t ∈ front, t.isLabel = false) := by
  induction front generalizing reached with
  | nil =>
    have hnone : ¬ Ended [] := by
      rintro ⟨before, last, behind, heq, -⟩
      exact List.append_ne_nil_of_right_ne_nil before (List.cons_ne_nil last behind) heq.symm
    simp [goesOn, hnone]
  | cons s rest ih =>
    -- the statement that ends a list is further on, or it is the first one and no label follows
    have hcons : Ended (s :: rest) ↔
        Ended rest ∨ (endsBlock s = true ∧ ∀ t ∈ rest, t.isLabel = false) := by
      constructor
      · rintro ⟨before, last, behind, heq, hends, hfree⟩
        rcases List.cons_eq_append_iff.mp heq with ⟨rfl, hlast⟩ | ⟨before', rfl, hrest⟩
        · cases hlast
          exact .inr ⟨hends, hfree⟩
        · exact .inl ⟨before', last, behind, hrest, hends, hfree⟩
      · rintro (⟨before, last, behind, rfl, hends, hfree⟩ | ⟨hends, hfree⟩)
        · exact ⟨s :: before, last, behind, rfl, hends, hfree⟩
        · exact ⟨[], s, rest, rfl, hends, hfree⟩
    have hlabel : endsBlock s = true → s.isLabel = false := by
      intro hends
      unfold endsBlock at hends
      split at hends
      · rfl
      · rfl
      · cases hends
    rw [goesOn, ih, hcons, List.forall_mem_cons]
    cases hs : s.isLabel <;> cases hends : endsBlock s <;> cases reached <;> simp_all

/-- **What the walk finds dead behind some statements of a list** is what it finds in the rest, taken
    by itself. -/
theorem dead_inBlock_append (label : String) (reached : Bool) (front rest : List Statement) :
    ∃ label' found, (inBlock label reached (front ++ rest)).dead =
      found ++ (inBlock label' (goesOn reached front) rest).dead ∧ found ⊆ Block.all front := by
  induction front generalizing label reached with
  | nil => exact ⟨label, [], rfl, List.Subset.refl _⟩
  | cons s behind ih =>
    -- a label makes what follows reached; otherwise the walk depends on whether it is reached so far
    by_cases hs : s.isLabel = true
    · obtain ⟨name, span, rfl⟩ := exists_of_isLabel hs
      obtain ⟨label', found, hdead, hsub⟩ := ih name.folded true
      refine ⟨label', found, hdead, fun t ht => ?_⟩
      exact List.mem_cons_of_mem _ (List.mem_append_right _ (hsub ht))
    · rw [Bool.not_eq_true] at hs
      cases reached with
      | true =>
        obtain ⟨label', found, hdead, hsub⟩ := ih label (!endsBlock s)
        refine ⟨label', (inStatement label s).dead ++ found, ?_, fun t ht => ?_⟩
        · rw [List.cons_append, inBlock_cons_of_reached hs, Findings.dead_append, hdead, goesOn, hs,
            List.append_assoc]
          rfl
        · refine List.mem_cons_of_mem _ ?_
          rcases List.mem_append.mp ht with ht | ht
          · exact List.mem_append_left _ (dead_inStatement label s ht)
          · exact List.mem_append_right _ (hsub ht)
      | false =>
        obtain ⟨label', found, hdead, hsub⟩ := ih label false
        refine ⟨label', (if isHarmless s then [] else [s]) ++ found, ?_, fun t ht => ?_⟩
        · rw [List.cons_append, inBlock_cons_of_not_reached hs, Findings.dead_append, hdead, goesOn, hs,
            List.append_assoc]
          rfl
        · rcases List.mem_append.mp ht with ht | ht
          · split at ht
            · exact absurd ht List.not_mem_nil
            · exact List.mem_singleton.mp ht ▸ List.mem_cons_self
          · exact List.mem_cons_of_mem _ (List.mem_append_right _ (hsub ht))

/-! ## 3. Statements that hold others -/

theorem isLabel_of_mem_blocks {block : List Statement} (h : block ∈ s.blocks) : s.isLabel = false := by
  cases s with
  | action form span => exact absurd h List.not_mem_nil
  | _ => rfl

theorem isHarmless_of_within (h : s.within ≠ []) : isHarmless s = false := by
  cases s with
  | action form span => exact absurd rfl h
  | _ => rfl

theorem isLabel_of_within (h : s.within ≠ []) : s.isLabel = false := by
  cases s with
  | action form span => exact absurd rfl h
  | _ => rfl

/-- The statements of a tree differ, so a statement of a list and those within it stand nowhere else in
    the list. -/
theorem apart_of_nodup (h : (Block.all (front ++ t :: rest)).Nodup) : (t :: t.within).Nodup ∧
    (t :: t.within).Disjoint (Block.all front) ∧ (t :: t.within).Disjoint (Block.all rest) := by
  have hall : Block.all (front ++ t :: rest) = Block.all front ++ ((t :: t.within) ++ Block.all rest) :=
    Block.all_append front (t :: rest)
  rw [hall, List.nodup_append', List.nodup_append'] at h
  obtain ⟨-, ⟨hself, -, hrest⟩, hfront⟩ := h
  exact ⟨hself, fun u hu hu' => hfront hu' (List.mem_append_left _ hu), hrest⟩

/-- **What is found of a statement in its list**: the statement itself if the list has been ended
    before it, else what is found in its blocks. -/
theorem exists_mem_dead_iff (label : String) (hnodup : (Block.all (front ++ t :: rest)).Nodup)
    (hlabel : t.isLabel = false) : ∃ label', ∀ u ∈ t :: t.within,
      (u ∈ (inBlock label true (front ++ t :: rest)).dead ↔
        Ended front ∧ u = t ∧ isHarmless t = false ∨
          ¬ Ended front ∧ u ∈ (inStatement label' t).dead) := by
  obtain ⟨-, hfront, hrest⟩ := apart_of_nodup hnodup
  obtain ⟨label', found, hdead, hsub⟩ := dead_inBlock_append label true front (t :: rest)
  have hgoes : goesOn true front = false ↔ Ended front := by simp [goesOn_eq_false]
  refine ⟨label', fun u hu => ?_⟩
  rw [hdead, List.mem_append, or_iff_right fun hmem => hfront hu (hsub hmem), ← hgoes]
  have hlater (reached : Bool) : u ∉ (inBlock label' reached rest).dead :=
    fun hmem => hrest hu (dead_inBlock _ _ rest hmem)
  cases goesOn true front with
  | true =>
    rw [inBlock_cons_of_reached hlabel, Findings.dead_append, List.mem_append,
      or_iff_left (hlater _)]
    simp
  | false =>
    rw [inBlock_cons_of_not_reached hlabel, Findings.dead_append, List.mem_append,
      or_iff_left (hlater _)]
    cases isHarmless t <;> simp

/-- What is found in a statement of one of its blocks is found in that block. -/
theorem mem_dead_inStatement {block : List Statement} {u : Statement} (hnodup : t.within.Nodup)
    (hblock : block ∈ t.blocks) (hu : u ∈ Block.all block) :
    u ∈ (inStatement label t).dead ↔ u ∈ (inBlock label true block).dead := by
  rw [(inStatement_eq t).2, List.mem_flatMap]
  constructor
  · rintro ⟨other, hother, hdead⟩
    by_cases heq : block = other
    · exact heq ▸ hdead
    · exact absurd (dead_inBlock label true other hdead) (disjoint_blocks hnodup hblock hother heq hu)
  · exact fun hdead => ⟨block, hblock, hdead⟩

/-- **Where the walk finds a statement that holds others**: its list has been ended before it, and no
    list around has been ended before the statement there. -/
theorem Stands.mem_dead_iff (h : Stands body outer own s) (hs : s.within ≠ []) (label : String)
    (hnodup : (Block.all body).Nodup) : s ∈ (inBlock label true body).dead ↔
      Ended own ∧ ∀ front ∈ outer, ¬ Ended front := by
  induction h generalizing label with
  | here own rest s =>
    obtain ⟨label', hiff⟩ := exists_mem_dead_iff label hnodup (isLabel_of_within hs)
    have hwithin : s ∉ (inStatement label' s).dead := fun hmem =>
      (List.nodup_cons.mp (apart_of_nodup hnodup).1).1 (dead_inStatement label' s hmem)
    rw [hiff s List.mem_cons_self]
    simp [hwithin, isHarmless_of_within hs]
  | @inside front rest block own outer t s hblock h ih =>
    obtain ⟨label', hiff⟩ := exists_mem_dead_iff label hnodup (isLabel_of_mem_blocks hblock)
    obtain ⟨hself, hwithin⟩ := List.nodup_cons.mp (apart_of_nodup hnodup).1
    have hsub := t.sublist_within hblock
    have hmem : s ∈ t.within := hsub.subset h.mem_all
    have hne : s ≠ t := fun heq => hself (heq ▸ hmem)
    rw [hiff s (List.mem_cons_of_mem _ hmem), mem_dead_inStatement hwithin hblock h.mem_all,
      ih hs label' (hwithin.sublist hsub), List.forall_mem_cons]
    tauto

end Reachability

/-! ## 4. The analysis -/

namespace Procedure

open Reachability

/-- **Which statements that hold others are unreachable**: those behind a `return` or a `goto` of their
    own list with no label of that list in between, unless a statement around them stands so as well.
    The labels within them, reached or not, make no difference. -/
theorem mem_unreachable_iff (source : String) (file : Nat) {outer : List (List Statement)}
    {own : List Statement} {s : Statement} (h : Stands (ofText source file).body outer own s)
    (hs : s.within ≠ []) :
    s ∈ (ofText source file).unreachable ↔ Ended own ∧ ∀ front ∈ outer, ¬ Ended front := by
  rw [← h.mem_dead_iff hs "" (nodup_all source file)]
  constructor
  · intro hmem
    rcases mem_unreachable_cases (labels_ofText source file) hmem with hdead | ⟨name, span, rfl, -⟩
    · exact hdead
    · exact absurd rfl hs
  · exact fun hdead => List.mem_mergeSort.mpr (List.mem_append_left _ hdead)

/-- Whether a label stands within a statement that an edge from the start leads to. -/
def entersFromStart (edges : Edges) (s : Statement) : Bool :=
  s.within.any fun t => t.label?.any fun name => edges.contains ("", name.folded)

theorem exists_of_entersFromStart {edges : Edges} {s : Statement}
    (h : entersFromStart edges s = true) : ∃ t name, t ∈ s.within ∧ t.label? = some name ∧
      name.folded ∈ reachable edges := by
  obtain ⟨t, ht, hlabel⟩ := List.any_eq_true.mp h
  obtain ⟨name, hname, hedge⟩ := (Option.any_eq_true _ _).mp hlabel
  exact ⟨t, name, ht, hname,
    mem_reachable_of_edge (List.contains_iff_mem.mp hedge) (start_mem_reachable edges)⟩

/-- A statement and a `goto` behind it to a label within it. -/
def backwardText : String := "if x then\ninner:\ny = 1\nend\ngoto inner\n"

/-- At the start of a text such a statement is not returned. -/
theorem mem_unreachable_iff_first : ∃ s t name, t ∈ s.within ∧ t.label? = some name ∧
    name.folded ∈ reachable (inBlock "" true (ofText backwardText 0).body).edges ∧
      s ∉ (ofText backwardText 0).unreachable := by
  have hshape : (ofText backwardText 0).body.head?.any
      (entersFromStart (inBlock "" true (ofText backwardText 0).body).edges) = true := by
    decide +kernel
  obtain ⟨s, hhead, henters⟩ := (Option.any_eq_true _ _).mp hshape
  obtain ⟨rest, hbody⟩ := List.head?_eq_some_iff.mp hhead
  obtain ⟨t, name, ht, hlabel, hname⟩ := exists_of_entersFromStart henters
  have hstands : Stands (ofText backwardText 0).body [] [] s := by
    rw [hbody]
    exact .here [] rest s
  refine ⟨s, t, name, ht, hlabel, hname, fun hmem => ?_⟩
  obtain ⟨⟨before, last, behind, heq, -⟩, -⟩ :=
    (mem_unreachable_iff backwardText 0 hstands (List.ne_nil_of_mem ht)).mp hmem
  exact List.append_ne_nil_of_right_ne_nil before (List.cons_ne_nil last behind) heq.symm

/-- A `goto` to a label within the statement behind it. -/
def enteredText : String := "goto inner\nif x then\ninner:\ny = 1\nend\n"

/-- A statement may be returned although a label within it is reached. -/
theorem exists_unreachable_around_label : ¬ ∀ (source : String) (file : Nat) (s t : Statement)
    (name : Ident), (ofText source file).hasErrors = false → s ∈ Block.all (ofText source file).body →
      t ∈ s.within → t.label? = some name →
      name.folded ∈ reachable (inBlock "" true (ofText source file).body).edges →
      s ∉ (ofText source file).unreachable := by
  intro hall
  have hfacts : (ofText enteredText 0).hasErrors = false ∧
      (ofText enteredText 0).unreachable.any
        (entersFromStart (inBlock "" true (ofText enteredText 0).body).edges) = true := by
    decide +kernel
  obtain ⟨herrors, hshape⟩ := hfacts
  obtain ⟨s, hs, henters⟩ := List.any_eq_true.mp hshape
  obtain ⟨t, name, ht, hlabel, hname⟩ := exists_of_entersFromStart henters
  have hmem : s ∈ Block.all (ofText enteredText 0).body := by
    rcases mem_unreachable_cases (labels_ofText enteredText 0) hs with hdead | ⟨_, _, rfl, -⟩
    · exact dead_inBlock _ _ _ hdead
    · cases ht
  exact hall enteredText 0 s t name herrors hmem ht hlabel hname hs

end Procedure

end BasicCheck
