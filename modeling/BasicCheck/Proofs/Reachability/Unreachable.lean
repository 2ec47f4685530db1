import BasicCheck.Proofs.Label
import BasicCheck.Proofs.Parse.Procedure
import BasicCheck.Proofs.Reachability.Seen

/-!
# Unreachable statements

A block is live if the walk comes to it under a label that can be reached, or if it starts with such a
label (`Live`). Live blocks lead to live blocks, whichever way they are left, and their first
statements are not found to be dead. So all that an execution may still come to is live: at the start,
behind every step (**`Step.live`**) and therefore always (`Reached.live`), and what the analysis
returns is never reached (**`Procedure.not_reached_of_mem_unreachable`**).
-/

namespace BasicCheck

namespace Reachability

variable {all : Findings} {s : Statement} {rest : List Statement} {body : List Statement}

/-! ## 1. Live blocks -/

/-- A block that the walk comes to under a reached label, or that starts with a reached label. -/
def Live (all : Findings) (here : List Statement) : Prop :=
  ∃ label reached, Seen all label reached here ∧
    ((reached = true ∧ label ∈ reachable all.edges) ∨
      ∃ name span rest, here = .action (.label name) span :: rest ∧
        name.folded ∈ reachable all.edges)

theorem Seen.live {label : String} {here : List Statement} (h : Seen all label true here)
    (hlabel : label ∈ reachable all.edges) : Live all here :=
  ⟨label, true, h, Or.inl ⟨rfl, hlabel⟩⟩

/-- The first statement of a live block is a reached label, or it is reached under one. -/
theorem Live.cases (h : Live all (s :: rest)) :
    (∃ name span, s = .action (.label name) span ∧ name.folded ∈ reachable all.edges ∧
      Seen all name.folded true rest) ∨
    (s.isLabel = false ∧ ∃ label ∈ reachable all.edges, Seen all label true (s :: rest)) := by
  obtain ⟨label, reached, hseen, hlive⟩ := h
  rcases hlive with ⟨rfl, hlabel⟩ | ⟨name, span, rest', heq, hname⟩
  · by_cases hs : s.isLabel = true
    · obtain ⟨name, span, rfl⟩ := exists_of_isLabel hs
      have hedge : (label, name.folded) ∈ all.edges := hseen.edges List.mem_cons_self
      exact Or.inl ⟨name, span, rfl, mem_reachable_of_edge hedge hlabel, hseen.behind_label⟩
    · rw [Bool.not_eq_true] at hs
      exact Or.inr ⟨hs, label, hlabel, hseen⟩
  · cases heq
    exact Or.inl ⟨name, span, rfl, hname, hseen.behind_label⟩

theorem Live.behind (h : Live all (s :: rest)) (hs : endsBlock s = false) : Live all rest := by
  rcases h.cases with ⟨name, span, -, hname, hseen⟩ | ⟨hlabel, label, hreached, hseen⟩
  · exact hseen.live hname
  · have hrest := hseen.behind hlabel
    rw [hs] at hrest
    exact hrest.live hreached

theorem Live.block {block : List Statement} (h : Live all (s :: rest)) (hblock : block ∈ s.blocks) :
    Live all block := by
  rcases h.cases with ⟨name, span, rfl, -, -⟩ | ⟨-, label, hreached, hseen⟩
  · exact absurd hblock List.not_mem_nil
  · exact (hseen.block hblock).live hreached

/-- **What a live statement jumps to is reached.** -/
theorem Live.target {target : Ident} (h : Live all (s :: rest)) (htarget : target ∈ jumpTargets s) :
    target.folded ∈ reachable all.edges := by
  rcases h.cases with ⟨name, span, rfl, -, -⟩ | ⟨hlabel, label, hreached, hseen⟩
  · exact absurd htarget List.not_mem_nil
  · refine mem_reachable_of_edge (hseen.edges ?_) hreached
    rw [inBlock_cons_of_reached hlabel, Findings.edges_append, Findings.edges_append]
    refine List.mem_append_left _ (List.mem_append_left _ ?_)
    exact List.mem_map.mpr ⟨target, htarget, rfl⟩

/-- **The first statement of a live block is not dead.** -/
theorem Live.not_dead (h : Live all (s :: rest)) : s ∉ all.dead := by
  intro hdead
  have ⟨label, reached, hseen, _⟩ := h
  obtain ⟨hwithin, hrest, -⟩ := hseen.apart
  rcases h.cases with ⟨name, span, rfl, -, -⟩ | ⟨hlabel, label', -, hseen'⟩
  · exact hrest (dead_inBlock _ _ rest (hseen.dead List.mem_cons_self hdead))
  · have hdead' := hseen'.dead List.mem_cons_self hdead
    rw [inBlock_cons_of_reached hlabel] at hdead'
    rcases List.mem_append.mp hdead' with hdead' | hdead'
    · exact hwithin (dead_inStatement label' s hdead')
    · exact hrest (dead_inBlock _ _ rest hdead')

/-! ## 2. Steps -/

/-- Everything at a position is live, and so is what follows behind the blocks around it. -/
def Position.Live (all : Findings) (p : Position) : Prop :=
  Reachability.Live all p.here ∧
    ∀ frame ∈ p.outer, Reachability.Live all frame.block ∧ Reachability.Live all frame.rest

/-- Everything that an execution may go on with is live. -/
def Execution.Live (all : Findings) (e : Execution) : Prop :=
  e.position.Live all ∧ ∀ p ∈ e.pending, p.Live all

theorem endsBlock_of_passes (h : passes s = true) : endsBlock s = false := by
  by_contra hends
  rw [Bool.not_eq_false] at hends
  unfold endsBlock at hends
  split at hends
  · cases h
  · cases h
  · cases hends

theorem endsBlock_of_mem_blocks {block : List Statement} (h : block ∈ s.blocks) :
    endsBlock s = false := by
  cases s with
  | action form span => exact absurd h List.not_mem_nil
  | _ => rfl

/-- The walk comes to every part of the outermost block. -/
theorem Within.exists_seen (hall : Seen all "" true body) {p : Position} (h : Within body p)
    (houter : p.outer = []) : ∃ label reached, Seen all label reached p.here := by
  induction h with
  | start => exact ⟨"", true, hall⟩
  | next h ih =>
    obtain ⟨label, reached, hseen⟩ := ih houter
    exact hseen.exists_behind
  | enter h hblock ih => cases houter

/-- **A jump from a live statement leads to a live position.** -/
theorem Marks.live (hall : Seen all "" true body)
    (hlabels : ∀ s ∈ body, ∀ t ∈ s.within, t.isLabel = false) {target : Ident} {p : Position}
    (h : Marks body target p) (htarget : target.folded ∈ reachable all.edges) : p.Live all := by
  obtain ⟨hwithin, name, span, rest, hhere, hname⟩ := h
  have houter : p.outer = [] := by
    refine hwithin.outer_eq_nil hlabels (s := .action (.label name) span) ?_ rfl
    rw [hhere]
    exact List.mem_cons_self
  obtain ⟨label, reached, hseen⟩ := hwithin.exists_seen hall houter
  refine ⟨⟨label, reached, hseen, Or.inr ⟨name, span, rest, hhere, hname ▸ htarget⟩⟩, ?_⟩
  rw [houter]
  exact List.forall_mem_nil _

/-- **One step keeps everything live.** -/
theorem Step.live (hall : Seen all "" true body)
    (hlabels : ∀ s ∈ body, ∀ t ∈ s.within, t.isLabel = false) {e e' : Execution}
    (hstep : Step body e e') (h : e.Live all) : e'.Live all := by
  obtain ⟨⟨hhere, houter⟩, hpending⟩ := h
  -- behind a statement that ends its block nothing is live, so each step has to say why it goes on
  -- where it does
  cases hstep with
  | pass hpass => exact ⟨⟨hhere.behind (endsBlock_of_passes hpass), houter⟩, hpending⟩
  | enter hblock =>
    refine ⟨⟨hhere.block hblock, List.forall_mem_cons.mpr ⟨⟨?_, ?_⟩, houter⟩⟩, hpending⟩
    · exact hhere.block hblock
    · exact hhere.behind (endsBlock_of_mem_blocks hblock)
  | again hloop =>
    obtain ⟨hframe, -⟩ := List.forall_mem_cons.mp houter
    exact ⟨⟨hframe.1, houter⟩, hpending⟩
  | close =>
    obtain ⟨hframe, houter⟩ := List.forall_mem_cons.mp houter
    exact ⟨⟨hframe.2, houter⟩, hpending⟩
  | leave hinner hloop =>
    obtain ⟨-, houter⟩ := List.forall_mem_append.mp houter
    obtain ⟨hframe, houter⟩ := List.forall_mem_cons.mp houter
    exact ⟨⟨hframe.2, houter⟩, hpending⟩
  | goto hmarks =>
    exact ⟨hmarks.live hall hlabels (hhere.target List.mem_cons_self), hpending⟩
  | gosub hmarks =>
    refine ⟨hmarks.live hall hlabels (hhere.target List.mem_cons_self), ?_⟩
    exact List.forall_mem_cons.mpr ⟨⟨hhere.behind rfl, houter⟩, hpending⟩
  | onGoto htarget hmarks =>
    exact ⟨hmarks.live hall hlabels (hhere.target htarget), hpending⟩
  | onGosub htarget hmarks =>
    refine ⟨hmarks.live hall hlabels (hhere.target htarget), ?_⟩
    exact List.forall_mem_cons.mpr ⟨⟨hhere.behind rfl, houter⟩, hpending⟩
  | «return» =>
    obtain ⟨hbefore, hafter⟩ := List.forall_mem_append.mp hpending
    obtain ⟨hp, hafter⟩ := List.forall_mem_cons.mp hafter
    exact ⟨hp, List.forall_mem_append.mpr ⟨hbefore, hafter⟩⟩

theorem Reached.live (hall : Seen all "" true body)
    (hlabels : ∀ s ∈ body, ∀ t ∈ s.within, t.isLabel = false) {e : Execution}
    (h : Reached body e) : e.Live all := by
  induction h with
  | start =>
    refine ⟨⟨hall.live (start_mem_reachable _), ?_⟩, ?_⟩ <;> exact List.forall_mem_nil _
  | step h hstep ih => exact hstep.live hall hlabels ih

theorem seen_body (hnodup : (Block.all body).Nodup) : Seen (inBlock "" true body) "" true body where
  edges _ hedge := hedge
  dead _ hdead := hdead
  nodup := hnodup

end Reachability

/-! ## 3. The analysis -/

namespace Procedure

open Reachability

/-- A statement is unreachable because it is dead, or because it is a label that is not reached. -/
theorem mem_unreachable_cases {p : Procedure} (hlabels : p.labels = .ofBody p.body) {s : Statement}
    (h : s ∈ p.unreachable) : s ∈ (inBlock "" true p.body).dead ∨
      ∃ name span, s = .action (.label name) span ∧
        name.folded ∉ reachable (inBlock "" true p.body).edges := by
  unfold unreachable at h
  rcases List.mem_append.mp (List.mem_mergeSort.mp h) with h | h
  · exact Or.inl h
  · obtain ⟨symbol, -, hsymbol⟩ := List.mem_filterMap.mp h
    split at hsymbol
    · rename_i hlost
      obtain ⟨name, span, rfl, hname⟩ := exists_of_labelStatement? hlabels hsymbol
      refine Or.inr ⟨name, span, rfl, ?_⟩
      rw [hname]
      simp only [Bool.and_eq_true, Bool.not_eq_true', List.contains_eq_mem, decide_eq_false_iff_not]
        at hlost
      exact hlost.2
    · cases hsymbol

/-- **Unreachable statements are never reached**, if all labels stand in the outermost block: no
    execution comes to one, whichever way conditions, selectors and calls come out. -/
theorem not_reached_of_mem_unreachable (source : String) (file : Nat)
    (hlabels : ∀ s ∈ (ofText source file).body, ∀ t ∈ s.within, t.isLabel = false) {s : Statement}
    (hs : s ∈ (ofText source file).unreachable) {e : Execution}
    (hreached : Reached (ofText source file).body e) : e.position.here.head? ≠ some s := by
  intro hhead
  obtain ⟨⟨hlive, -⟩, -⟩ := hreached.live (seen_body (nodup_all source file)) hlabels
  obtain ⟨rest, hhere⟩ := List.head?_eq_some_iff.mp hhead
  rw [hhere] at hlive
  rcases mem_unreachable_cases (labels_ofText source file) hs with hdead | ⟨name, span, rfl, hname⟩
  · exact hlive.not_dead hdead
  · rcases hlive.cases with ⟨name', span', heq, hname', -⟩ | ⟨hlabel, -⟩
    · cases heq
      exact hname hname'
    · cases hlabel

/-- A `goto`, the statement that it jumps over and the label that it leads to. -/
def jumpsOver : Block → Bool
  | [.action (.goto target) _, _, .action (.label name) _] => name.folded == target.folded
  | _ => false

/-- At the label that a `goto` leads to, the statement between them has not been reached. -/
theorem not_reached_of_mem_unreachable_goto : ∃ s e,
    s ∈ (ofText "goto a\nx = 1\na:\n" 0).unreachable ∧
      Reached (ofText "goto a\nx = 1\na:\n" 0).body e ∧
      (∃ label, e.position.here.head? = some label ∧ label.isLabel = true) ∧
      e.position.here.head? ≠ some s := by
  have hlabels : ∀ s ∈ (ofText "goto a\nx = 1\na:\n" 0).body,
      ∀ t ∈ s.within, t.isLabel = false := by
    have hall : (List.all (ofText "goto a\nx = 1\na:\n" 0).body fun s =>
        s.within.all fun t => !t.isLabel) = true := by decide +kernel
    intro s hs t ht
    have hnone := List.all_eq_true.mp (List.all_eq_true.mp hall s hs) t ht
    rwa [Bool.not_eq_true'] at hnone
  have hfound : (ofText "goto a\nx = 1\na:\n" 0).unreachable.length = 1 := by decide +kernel
  obtain ⟨s, hs⟩ := List.length_eq_one_iff.mp hfound
  have hmem : s ∈ (ofText "goto a\nx = 1\na:\n" 0).unreachable := hs ▸ List.mem_cons_self
  have hshape : jumpsOver (ofText "goto a\nx = 1\na:\n" 0).body = true := by decide +kernel
  -- the body is a jump, a statement and a label, and the jump leads to the label in one step
  unfold jumpsOver at hshape
  split at hshape
  · rename_i target span1 second name span3 hbody
    have hreached : Reached (ofText "goto a\nx = 1\na:\n" 0).body
        ⟨⟨[.action (.label name) span3], []⟩, []⟩ := by
      rw [hbody]
      exact .step .start (.goto ⟨.next (.next .start), name, span3, [], rfl, eq_of_beq hshape⟩)
    exact ⟨s, _, hmem, hreached, ⟨_, rfl, rfl⟩,
      not_reached_of_mem_unreachable _ _ hlabels hmem hreached⟩
  · cases hshape

end Procedure

end BasicCheck
