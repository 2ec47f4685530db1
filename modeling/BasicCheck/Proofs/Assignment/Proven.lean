import BasicCheck.Proofs.Assignment.Call
import BasicCheck.Proofs.Assignment.Unassigned
import BasicCheck.Proofs.Parse.Labels

/-!
# What a call makes certain

The analysis takes a `gosub` to assign what the walk keeps from the label to the first statement
that always returns. This is right as long as no `return` ends the call before (`PromptCall`): then
every path from the label to the end of the call assigns it
(**`Procedure.assigned_of_mem_gosubFlow`**), as it assigns what each statement on the way does
(`assigned_of_mem_walk`).

A `return` in one arm of a decision ends a call too. The walk drops such an arm, which is right for
the list around it, since control does not go on there; but the call is over, and what the other arm
and the statements behind it assign need not have been assigned
(**`Procedure.not_assigned_of_early_return`**).
-/

namespace BasicCheck

namespace Assignment

/-! ## 1. One subroutine -/

variable {seeds : NameSet} {gosub : String → NameSet → NameSet × List Finding}
  {call : String → Paths}

/-- A path through a statement and what stands behind it starts with its assignments. -/
theorem assign_mem_of_blockRuns {s : Statement} {rest : List Statement} {name : String}
    {path : List Event} {exit : Exit} (hname : name ∈ s.assigned)
    (hpath : blockRuns call (s :: rest) path exit) : .assign name ∈ path := by
  have hfirst : ∀ a last, Paths.andThen (.once (eventsOf s) .on) (innerRuns call s) a last →
      .assign name ∈ a := by
    intro a last ha
    cases ha with
    | on first second =>
      obtain ⟨rfl, -⟩ := first
      exact List.mem_append_left _ (assign_mem_eventsOf_of_mem hname)
    | out first hexit =>
      obtain ⟨-, rfl⟩ := first
      exact absurd rfl hexit
  cases hpath with
  | on first second => exact List.mem_append_left _ (hfirst _ _ first)
  | out first hexit => exact hfirst _ _ first

/-- **What the walk keeps up to a return is assigned on every path to a return**, if none stands on
    the way. -/
theorem assigned_of_mem_walk (hcall : ∀ name path, ¬ call name path .returned) :
    ∀ (rest : List Statement) (known : NameSet), Prompt rest →
      Tame gosub call (Block.all (upToReturn rest)) →
      ∀ name ∈ (walk seeds gosub true known rest).assigned, ∀ path,
        blockRuns call rest path .returned → .assign name ∈ path
  | [], known, hprompt, htame, name, hname, path, hpath => by
    obtain ⟨-, hexit⟩ := hpath
    cases hexit
  | s :: rest, known, hprompt, htame, name, hname, path, hpath => by
    have hends :
        (effect seeds gosub (knownAt known s ∪ addAll s.assigned ∅) s).1.ends = s.returns :=
      ends_effect _ s
    unfold walk at hname
    cases heffect : effect seeds gosub (knownAt known s ∪ addAll s.assigned ∅) s with
    | mk outcome inner =>
      rw [heffect] at hends
      simp only [heffect, if_true] at hname
      cases outcome with
      | returns => exact assign_mem_of_blockRuns (mem_addAll_empty.mp hname) hpath
      | armsReturn => exact assign_mem_of_blockRuns (mem_addAll_empty.mp hname) hpath
      | goesOn proven =>
        -- the walk goes on, so there is no return in the statement and every path goes on as well
        have hgoes : s.returns = false := hends.symm
        have hsplit : upToReturn (s :: rest) = s :: upToReturn rest := by simp [upToReturn, hgoes]
        rw [Prompt, hsplit] at hprompt
        rw [hsplit, Block.all] at htame
        have htameHere : Tame gosub call (s :: s.within) :=
          htame.mono (List.cons_subset_cons s (List.subset_append_left _ _))
        have htameRest : Tame gosub call (Block.all (upToReturn rest)) :=
          htame.mono fun t ht => List.mem_cons_of_mem _ (List.mem_append_right _ ht)
        have hfree : ∀ t ∈ s.within, t.isReturn = false := by
          rcases hprompt s List.mem_cons_self with hreturns | hfree
          · rw [hgoes] at hreturns
            cases hreturns
          · exact hfree
        have hstays : Stays (s :: s.within) := by
          intro t ht
          refine ⟨htameHere.stays t ht, ?_⟩
          rcases List.mem_cons.mp ht with rfl | ht
          · exact Statement.isReturn_eq_false hgoes
          · exact hfree t ht
        have hinner : (effect seeds gosub (knownAt known s ∪ addAll s.assigned ∅) s).1.Sound
            (innerRuns call s) := sound_effect _ s htameHere
        rw [heffect] at hinner
        rcases Paths.andThen_returned hpath with hfirst | ⟨a, b, rfl, hfirst, hrest⟩
        · rcases Paths.andThen_returned hfirst with ⟨-, hexit⟩ | ⟨-, turn, -, -, hturn⟩
          · cases hexit
          · exact absurd hturn (not_returned_statement hcall s hstays turn)
        · rw [Std.ExtTreeSet.mem_union_iff, Std.ExtTreeSet.mem_union_iff] at hname
          rcases hname with (hname | hname) | hname
          · exact assign_mem_of_blockRuns (mem_addAll_empty.mp hname) hpath
          · have hgoing :
                (Paths.andThen (.once (eventsOf s) .on) (innerRuns call s)).Assigns name :=
              Paths.assigns_andThen.mpr (Or.inr (hinner name hname))
            exact List.mem_append_left _ (hgoing a hfirst)
          · have hprompt' : Prompt rest := fun t ht => hprompt t (List.mem_cons_of_mem _ ht)
            exact List.mem_append_right _
              (assigned_of_mem_walk hcall rest _ hprompt' htameRest name hname b hrest)

theorem not_returned_callPaths (body : Block) (depth : Nat) (name : String) (path : List Event) :
    ¬ callPaths body depth name path .returned := by
  intro hpath
  cases depth with
  | zero => exact hpath
  | succ depth =>
    obtain ⟨hexit, -⟩ := hpath
    cases hexit

/-! ## 2. Where a label leads -/

theorem sublist_all (body : List Statement) : body.Sublist (Block.all body) := by
  induction body with
  | nil => exact List.Sublist.refl _
  | cons s rest ih => exact (ih.trans (List.sublist_append_right s.within _)).cons_cons s

/-- Of a list whose labels all differ, a label is at one position. -/
theorem eq_length_of_label {body before rest : Block} {label other : Ident} {span span' : Span}
    {index : Nat} (hdistinct : ((body.filterMap Statement.label?).map Ident.folded).Nodup)
    (hbody : body = before ++ .action (.label label) span :: rest)
    (hindex : body[index]? = some (.action (.label other) span'))
    (hname : other.folded = label.folded) : index = before.length := by
  rw [hbody, List.filterMap_append, List.map_append] at hdistinct
  obtain ⟨-, hhere, hapart⟩ := List.nodup_append'.mp hdistinct
  have hfirst : label.folded ∉ (rest.filterMap Statement.label?).map Ident.folded :=
    (List.nodup_cons.mp hhere).1
  have hother {part : Block} (hmem : Statement.action (.label other) span' ∈ part) :
      label.folded ∈ (part.filterMap Statement.label?).map Ident.folded := by
    rw [← hname]
    exact List.mem_map_of_mem (List.mem_filterMap.mpr ⟨_, hmem, rfl⟩)
  rw [hbody] at hindex
  rcases Nat.lt_trichotomy index before.length with hlt | heq | hgt
  · rw [List.getElem?_append_left hlt] at hindex
    exact absurd List.mem_cons_self (hapart (hother (List.mem_of_getElem? hindex)))
  · exact heq
  · rw [List.getElem?_append_right (Nat.le_of_lt hgt)] at hindex
    obtain ⟨k, hk⟩ := Nat.exists_eq_add_of_lt hgt
    rw [hk, Nat.add_assoc, Nat.add_sub_cancel_left, List.getElem?_cons_succ] at hindex
    exact absurd (hother (List.mem_of_getElem? hindex)) hfirst

/-- Where all labels stand in the outermost block and differ, a name leads behind its label. -/
theorem eq_of_afterLabel? {p : Procedure} (htable : p.labels = .ofBody p.body)
    (hdistinct : ((Block.labels p.body).map Ident.folded).Nodup)
    (hlabels : ∀ s ∈ p.body, ∀ t ∈ s.within, t.isLabel = false) {label : String}
    {rest after : Block} (hrest : Behind p.body (Text.fold label) rest)
    (hafter : p.afterLabel? label = some after) : after = rest := by
  obtain ⟨before, ident, span, hbody, hname⟩ := hrest
  simp only [Procedure.afterLabel?, Option.bind_eq_bind, Option.bind_eq_some_iff] at hafter
  obtain ⟨location, hlocation, block, hblock, hdrop⟩ := hafter
  rw [htable] at hlocation
  obtain ⟨block', other, span', hblock', hindex, hother⟩ :=
    LabelTable.declares_of_get? hlocation
  rw [hblock] at hblock'
  cases hblock'
  have hsteps : location.steps = [] := by
    cases hsteps : location.steps with
    | nil => rfl
    | cons step steps =>
      -- a label in a nested block would be within a statement of the body
      rw [LabelLocation.resolve?, hsteps] at hblock
      obtain ⟨i, n⟩ := step
      simp only [Block.enter?, Option.bind_eq_bind, Option.bind_eq_some_iff] at hblock
      obtain ⟨outer, houter, inner, hinner, hinside⟩ := hblock
      have hwithin : Statement.action (.label other) span' ∈ outer.within := by
        rw [Statement.within_eq]
        exact List.mem_flatMap.mpr ⟨inner, List.mem_of_getElem? hinner,
          Block.all_subset_of_enter? hinside (Block.mem_all_of_mem (List.mem_of_getElem? hindex))⟩
      have hnone := hlabels outer (List.mem_of_getElem? houter) _ hwithin
      cases hnone
  rw [LabelLocation.resolve?, hsteps] at hblock
  cases hblock
  have hposition : location.index = before.length :=
    eq_length_of_label (hdistinct.sublist (((sublist_all p.body).filterMap _).map _)) hbody hindex
      (hother.trans hname.symm)
  have hbehind : p.body.drop (before.length + 1) = rest := by simp [hbody]
  rw [hposition, hbehind] at hdrop
  exact (Option.some.inj hdrop).symm

/-! ## 3. Calls -/

/-- **What a `gosub` makes certain is assigned on every path through the call**, however deep calls
    nest in it. -/
theorem assigned_of_callPaths {p : Procedure} (htable : p.labels = .ofBody p.body)
    (hdistinct : ((Block.labels p.body).map Ident.folded).Nodup)
    (hgoto : ∀ s ∈ Block.all p.body, s.isGoto = false)
    (hlabels : ∀ s ∈ p.body, ∀ t ∈ s.within, t.isLabel = false) (depth : Nat) :
    ∀ {label : String} {idle : List String} {known : NameSet} {name : String} {path : List Event},
      PromptCall p.body (Text.fold label) →
      name ∈ (gosubFlow p seeds idle label known).1 →
      callPaths p.body depth (Text.fold label) path .on → .assign name ∈ path := by
  -- on how deep calls nest: the calls within the subroutine have less depth left, and they are prompt
  -- because it is
  induction depth with
  | zero => exact fun _ _ hpath => absurd hpath id
  | succ depth ih =>
    intro label idle known name path hprompt hname hpath
    obtain ⟨-, rest, hrest, hpath⟩ := hpath
    unfold gosubFlow at hname
    split at hname
    · split at hname
      · rename_i after hafter
        obtain rfl := eq_of_afterLabel? htable hdistinct hlabels hrest hafter
        have hsub : Block.all (upToReturn after) ⊆ Block.all p.body := by
          obtain ⟨before, ident, span, hbody, -⟩ := hrest
          obtain ⟨more, hmore⟩ := exists_append_upToReturn after
          intro s hs
          rw [hbody, Block.all_append, Block.all]
          refine List.mem_append_right _ (List.mem_cons_of_mem _ (List.mem_append_right _ ?_))
          rw [hmore, Block.all_append]
          exact List.mem_append_left _ hs
        have htame : Tame (gosubFlow p seeds (idle.erase (Text.fold label)))
            (callPaths p.body depth) (Block.all (upToReturn after)) := by
          constructor
          · exact fun s hs => hgoto s (hsub hs)
          · intro s hs target htarget known name hname path hpath
            have hcalls : Calls p.body (Text.fold label) target.folded :=
              ⟨after, hrest, s, hs, target, htarget, rfl⟩
            exact ih (fun other hother => hprompt other (.head hcalls hother)) hname hpath
        exact assigned_of_mem_walk (not_returned_callPaths p.body depth) after known
          (hprompt _ .refl after hrest) htame name hname path hpath
      · exact absurd hname Std.ExtTreeSet.not_mem_empty
    · exact absurd hname Std.ExtTreeSet.not_mem_empty

/-- Where no statement of the body holds a `return` unless it always returns, all calls are prompt.
    -/
theorem promptCall_of_forall {body : Block}
    (h : ∀ s ∈ body, s.returns = true ∨ ∀ t ∈ s.within, t.isReturn = false) (name : String) :
    PromptCall body name := by
  intro other hother rest hrest s hs
  obtain ⟨before, label, span, hbody, -⟩ := hrest
  obtain ⟨more, hmore⟩ := exists_append_upToReturn rest
  have hmem : s ∈ rest := by
    rw [hmore]
    exact List.mem_append_left _ hs
  have hmem' : s ∈ body := by
    rw [hbody]
    exact List.mem_append_right _ (List.mem_cons_of_mem _ hmem)
  exact h s hmem'

end Assignment

namespace Procedure

open Assignment

/-- **What a `gosub` is taken to assign is assigned on every path from its label to a `return` that
    ends the call**, if the call comes to no `return` before the one that it always comes to. -/
theorem assigned_of_mem_gosubFlow (source : String) (file : Nat)
    (herrors : (ofText source file).hasErrors = false)
    (hgoto : ∀ s ∈ Block.all (ofText source file).body, s.isGoto = false)
    (hlabels : ∀ s ∈ (ofText source file).body, ∀ t ∈ s.within, t.isLabel = false) {label : String}
    (hprompt : PromptCall (ofText source file).body (Text.fold label)) {idle : List String}
    {known : NameSet} {name : String}
    (hname : name ∈
      (gosubFlow (ofText source file) (seedsOf (ofText source file)) idle label known).1)
    {path : List Event} (hpath : CallPath (ofText source file).body (Text.fold label) path) :
    .assign name ∈ path := by
  obtain ⟨depth, hpath⟩ := hpath
  exact assigned_of_callPaths (labels_ofText source file)
    (closed_ofText source file herrors).distinct hgoto hlabels depth hprompt hname hpath

/-- A subroutine that assigns and returns. -/
def initText : String := "gosub init\nb = a\nreturn\ninit:\na = 1\nreturn\n"

/-- An assignment and a `return` behind a label. -/
def assignsAndReturns : Block → Bool
  | [_, _, _, .action (.label label) _, .action (.assignment _ _ _) _, .action (.return _) _] =>
    label.folded == "init"
  | _ => false

theorem assigned_of_mem_gosubFlow_init : ∃ path,
    "a" ∈ (gosubFlow (ofText initText 0) (seedsOf (ofText initText 0)) ["init"] "init" ∅).1 ∧
      CallPath (ofText initText 0).body "init" path ∧ .assign "a" ∈ path := by
  have hfacts : (ofText initText 0).hasErrors = false ∧
      (∀ s ∈ Block.all (ofText initText 0).body, s.isGoto = false) ∧
      (∀ s ∈ (ofText initText 0).body, ∀ t ∈ s.within, t.isLabel = false) ∧
      (∀ s ∈ (ofText initText 0).body, s.returns = true ∨ ∀ t ∈ s.within, t.isReturn = false) ∧
      assignsAndReturns (ofText initText 0).body = true := by decide +kernel
  obtain ⟨herrors, hgoto, hlabels, hreturns, hshape⟩ := hfacts
  have hname : "a" ∈
      (gosubFlow (ofText initText 0) (seedsOf (ofText initText 0)) ["init"] "init" ∅).1 := by
    rw [gosubFlow]
    decide +kernel
  have hpath : ∃ path, CallPath (ofText initText 0).body "init" path := by
    unfold assignsAndReturns at hshape
    split at hshape
    · rename_i first second third label span target op value span' result span'' hbody
      have hbehind : Behind (ofText initText 0).body "init" _ :=
        ⟨[first, second, third], label, span, hbody, eq_of_beq hshape⟩
      exact ⟨_, 1, rfl, _, hbehind,
        .on (.on ⟨rfl, rfl⟩ ⟨rfl, rfl⟩) (.out (.on ⟨rfl, rfl⟩ ⟨rfl, rfl⟩) nofun)⟩
    · cases hshape
  obtain ⟨path, hpath⟩ := hpath
  exact ⟨path, hname, hpath, assigned_of_mem_gosubFlow initText 0 herrors hgoto hlabels
    (promptCall_of_forall hreturns _) hname hpath⟩

/-- A subroutine that may return before it assigns. -/
def earlyText : String := "gosub init\nb = a\nreturn\ninit:\nif c then return\na = 1\nreturn\n"

/-- A call, and behind its label a decision that returns in its only arm and does not assign. -/
def returnsEarly : Block → Bool
  | [.action (.gosub target) _, _, _, .action (.label label) _,
      .decision test (some [.action (.return result) span']) none span, _, _] =>
    target.name == "init" && label.folded == "init" &&
      !(Statement.decision test (some [.action (.return result) span']) none span).assigned.contains "a" &&
      !(Statement.action (.return result) span').assigned.contains "a"
  | _ => false

/-- **A `return` in an arm ends the call**, and what the call is taken to assign is not assigned. -/
theorem not_assigned_of_early_return :
    (ofText earlyText 0).hasErrors = false ∧
    (∀ s ∈ Block.all (ofText earlyText 0).body, s.isGoto = false) ∧
    (∀ s ∈ (ofText earlyText 0).body, ∀ t ∈ s.within, t.isLabel = false) ∧
    (∃ target span, .action (.gosub target) span ∈ (ofText earlyText 0).body ∧
      target.name = "init") ∧
    "a" ∈ (gosubFlow (ofText earlyText 0) (seedsOf (ofText earlyText 0))
      (ofText earlyText 0).labels.names "init" ∅).1 ∧
    ∃ path, CallPath (ofText earlyText 0).body "init" path ∧ .assign "a" ∉ path := by
  have hfacts : (ofText earlyText 0).hasErrors = false ∧
      (∀ s ∈ Block.all (ofText earlyText 0).body, s.isGoto = false) ∧
      (∀ s ∈ (ofText earlyText 0).body, ∀ t ∈ s.within, t.isLabel = false) ∧
      returnsEarly (ofText earlyText 0).body = true := by decide +kernel
  obtain ⟨herrors, hgoto, hlabels, hshape⟩ := hfacts
  have hname : "a" ∈ (gosubFlow (ofText earlyText 0) (seedsOf (ofText earlyText 0))
      (ofText earlyText 0).labels.names "init" ∅).1 := by
    rw [gosubFlow]
    decide +kernel
  unfold returnsEarly at hshape
  split at hshape
  · rename_i target span₁ second third label span₂ test result span₃ span₄ last₁ last₂ hbody
    simp only [Bool.and_eq_true, beq_iff_eq, Bool.not_eq_true', List.contains_eq_mem,
      decide_eq_false_iff_not] at hshape
    obtain ⟨⟨⟨htarget, hlabel⟩, htest⟩, hreturn⟩ := hshape
    have hgosub : .action (.gosub target) span₁ ∈ (ofText earlyText 0).body := by
      rw [hbody]
      exact List.mem_cons_self
    have hbehind : Behind (ofText earlyText 0).body "init" _ :=
      ⟨[.action (.gosub target) span₁, second, third], label, span₂, hbody, hlabel⟩
    -- through the arm of the decision
    have hpath : CallPath (ofText earlyText 0).body "init" _ :=
      ⟨1, rfl, _, hbehind,
        .out (.on ⟨rfl, rfl⟩ (Or.inl (.out (.on ⟨rfl, rfl⟩ ⟨rfl, rfl⟩) nofun))) nofun⟩
    refine ⟨herrors, hgoto, hlabels, ⟨target, span₁, hgosub, htarget⟩, hname, _, hpath, ?_⟩
    have hdecision := (assign_mem_eventsOf (s := .decision test _ none span₄) trivial).not.mpr htest
    have haction := (assign_mem_eventsOf (s := .action _ span₃) trivial).not.mpr hreturn
    rw [List.append_nil, List.mem_append]
    exact not_or.mpr ⟨hdecision, haction⟩
  · cases hshape

end Procedure

end BasicCheck
