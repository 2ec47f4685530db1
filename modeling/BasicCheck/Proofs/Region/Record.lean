import BasicCheck.Proofs.Extent.Tree
import BasicCheck.Proofs.Recovery.Record

/-!
# Regions on the way

A region is recorded when what it folds is closed: it reaches from the word that opened this to what
was read last. Two regions are laminar if one lies within the other or they do not overlap. All
regions recorded between two states lie between them and are laminar (`Records`). That stays so when
reading goes on (**`Records.trans`**), for what is recorded later starts behind all of it, and when
something is closed that was opened before them (**`Records.close`**), for this covers all of it.

As long as there is no error they are also those of the statements that were read, but for the arms of
decisions, of which the tree keeps no span (`Folds`).
-/

namespace BasicCheck

/-! ## 1. Regions of a tree -/

/-- Two spans are nested, or they do not overlap. -/
def Span.Laminar (a b : Span) : Prop :=
  a.Within b ∨ b.Within a ∨ a.stop ≤ b.start ∨ b.stop ≤ a.start

/-- Whether the tree keeps the span of what a region folds: that of an arm of a decision is lost. -/
def Region.isKept (r : Region) : Bool :=
  match r.kind with
  | .thenArm | .elseArm => false
  | .counted | .loop | .choice | .caseArm => true

/-- How a statement is folded as a whole. -/
def Statement.foldKind? : Statement → Option RegionKind
  | action _ _ | decision _ _ _ _ => none
  | counted _ _ _ _ => some .counted
  | loop _ _ => some .loop
  | choice _ _ => some .choice

/-- The region of an arm of a choice. -/
def CaseArm.region (a : CaseArm) : Region := ⟨.caseArm, a.span⟩

/-- The regions that a statement is folded by, but for what is within its blocks. -/
def Statement.regions (st : Statement) : List Region :=
  (st.foldKind?.map (Region.mk · st.span)).toList ++ st.caseArms.map CaseArm.region

/-- The regions that some statements are folded by. -/
def Block.regions (ss : List Statement) : List Region := ss.flatMap Statement.regions

/-- The regions of the arms of a choice, each in front of those of the statements in the arm. -/
def regionsOfArms (arms : List CaseArm) : List Region :=
  arms.flatMap fun a => a.region :: Block.regions (Block.all a.body)

theorem Block.regions_append (a b : List Statement) :
    Block.regions (a ++ b) = Block.regions a ++ Block.regions b :=
  List.flatMap_append

theorem Block.regions_cons (st : Statement) (ss : List Statement) :
    Block.regions (st :: ss) = st.regions ++ Block.regions ss :=
  List.flatMap_cons

theorem regionsOfArms_append (a b : List CaseArm) :
    regionsOfArms (a ++ b) = regionsOfArms a ++ regionsOfArms b :=
  List.flatMap_append

theorem regions_allInArms (arms : List CaseArm) :
    Block.regions (allInArms arms) = arms.flatMap fun a => Block.regions (Block.all a.body) := by
  rw [allInArms_eq_flatMap]
  exact List.flatMap_assoc

/-- An arm of a choice has the regions of its statements and one of its own. -/
theorem perm_regions_arm (cond : Expr) (body : List Statement) (span : Span) :
    (Block.regions (Block.all body) ++ [Region.mk .caseArm span]).Perm
      (regionsOfArms [.mk cond body span]) := by
  rw [regionsOfArms, List.flatMap_singleton]
  exact List.perm_append_comm

/-- A choice has the regions of its arms and one of its own. -/
theorem perm_regions_choice (arms : List CaseArm) (span : Span) :
    (regionsOfArms arms ++ [Region.mk .choice span]).Perm
      (Block.regions (.choice arms span :: (Statement.choice arms span).within)) := by
  have harms : (arms.map CaseArm.region ++ Block.regions (allInArms arms)).Perm
      (regionsOfArms arms) := by
    rw [regions_allInArms, List.map_eq_flatMap]
    exact List.flatMap_append_perm arms (fun a => [a.region]) _
  rw [Block.regions_cons, Statement.within]
  exact (List.perm_append_singleton (Region.mk .choice span) _).trans (harms.symm.cons _)

namespace Grammar

open Parse

variable {α : Type} {o s u v : State} {a b own : List Region}

/-! ## 2. Regions between states -/

/-- No region is recorded on the way. -/
structure Still (s u : State) : Prop where
  past : Past s u
  regions : u.regions = s.regions

theorem Quiet.still (h : Quiet s u) : Still s u := ⟨h.past, h.regions⟩

theorem Still.refl (s : State) : Still s s := ⟨.refl s, rfl⟩

theorem Still.trans (h : Still s u) (g : Still u v) : Still s v :=
  ⟨h.past.trans g.past, g.regions.trans h.regions⟩

/-- What stands between two states stops before what stands behind them starts. -/
theorem Lies.stop_le_start {x y : Span} (h : Lies x s u) (hu : Orderly u) (g : Lies y u v) :
    x.stop ≤ y.start := by
  obtain ⟨t, hlast⟩ := Option.isSome_iff_exists.mp h.some
  obtain ⟨-, -, -, hnext⟩ := hu.previous hlast
  exact Place.le_trans h.stop (Place.le_trans hnext g.start)

/-- The regions that are recorded on the way from a state with tokens in order to another one. -/
structure Records (s : State) (more : List Region) (u : State) : Prop where
  orderly : Orderly s
  past : Past s u
  regions : u.regions.toList = s.regions.toList ++ more
  lies : ∀ r ∈ more, Lies r.span s u
  laminar : more.Pairwise fun r r' => r.span.Laminar r'.span

namespace Records

theorem still (hs : Orderly s) (h : Still s u) : Records s [] u :=
  ⟨hs, h.past, by rw [h.regions, List.append_nil], List.forall_mem_nil _, .nil⟩

theorem orderly_end (h : Records s a u) : Orderly u := h.orderly.past h.past

/-- **What is recorded later** starts behind what was recorded before. -/
theorem trans (h : Records s a u) (g : Records u b v) : Records s (a ++ b) v where
  orderly := h.orderly
  past := h.past.trans g.past
  regions := by rw [g.regions, h.regions, List.append_assoc]
  lies := by
    refine List.forall_mem_append.mpr ⟨fun r hr => ?_, fun r hr => ?_⟩
    · exact (h.lies r hr).widen h.orderly (.refl s) g.past g.orderly
    · exact (g.lies r hr).widen h.orderly h.past (.refl v) g.orderly_end
  laminar := by
    refine List.pairwise_append.mpr ⟨h.laminar, g.laminar, fun r hr r' hr' => ?_⟩
    exact Or.inr (Or.inr (Or.inl ((h.lies r hr).stop_le_start g.orderly (g.lies r' hr'))))

/-- **What is closed** covers what was recorded since it was opened. -/
theorem close (hs : Orderly o) (hword : o.current.kind.IsWord) (h : Records o.advance.2 a u)
    (kind : RegionKind) :
    Records o (a ++ [⟨kind, o.current.span.join u.previous.span⟩])
      { u with regions := u.regions.push ⟨kind, o.current.span.join u.previous.span⟩ } := by
  have hopens : Opens o o.current u := ⟨rfl, hword, h.past⟩
  have hin := (still hs (Quiet.advance o).still).trans h
  have hpush : Past u { u with
      regions := u.regions.push ⟨kind, o.current.span.join u.previous.span⟩ } :=
    .recorded (List.prefix_refl _)
  refine ⟨hs, hin.past.trans hpush, ?_, fun r hr => ?_, ?_⟩
  · show (u.regions.push _).toList = _
    rw [Array.toList_push, hin.regions, List.append_assoc]
    rfl
  · have hlies : Lies r.span o u := by
      rcases List.mem_append.mp hr with hr | hr
      · exact hin.lies r hr
      · rw [List.mem_singleton.mp hr]
        exact hopens.lies_join hs
    exact hlies.widen hs (.refl o) hpush hin.orderly_end
  · refine List.pairwise_append.mpr ⟨h.laminar, List.pairwise_singleton _ _, fun r hr r' hr' => ?_⟩
    rw [List.mem_singleton.mp hr']
    exact Or.inl (hopens.within (hin.lies r hr).start (hin.lies r hr).stop)

end Records

/-! ## 3. Regions that match a tree -/

/-- What is recorded on the way are the regions of a tree, and of arms of decisions, unless there is
    an error. -/
def Folds (s : State) (own : List Region) (u : State) : Prop :=
  ∃ more, Records s more u ∧ (u.Clean → (more.filter Region.isKept).Perm own)

namespace Folds

theorem still (hs : Orderly s) (h : Still s u) : Folds s [] u :=
  ⟨[], .still hs h, fun _ => .nil⟩

theorem orderly_end (h : Folds s own u) : Orderly u := by
  obtain ⟨more, hmore, -⟩ := h
  exact hmore.orderly_end

/-- Behind an error nothing is asked for. -/
theorem of_not_clean (h : Records s a u) (hu : ¬ u.Clean) : Folds s own u :=
  ⟨a, h, fun hclean => absurd hclean hu⟩

theorem perm (h : Folds s a u) (hab : a.Perm b) : Folds s b u := by
  obtain ⟨more, hmore, hmatch⟩ := h
  exact ⟨more, hmore, fun hu => (hmatch hu).trans hab⟩

theorem trans (h : Folds s a u) (g : Folds u b v) : Folds s (a ++ b) v := by
  obtain ⟨more, hmore, hmatch⟩ := h
  obtain ⟨later, hlater, hmatch'⟩ := g
  refine ⟨more ++ later, hmore.trans hlater, fun hv => ?_⟩
  rw [List.filter_append]
  exact (hmatch (hlater.past.clean hv)).append (hmatch' hv)

theorem before (h : Folds s own u) (g : Still u v) : Folds s own v := by
  have hall := h.trans (still h.orderly_end g)
  rwa [List.append_nil] at hall

theorem behind (hs : Orderly o) (h : Still o s) (g : Folds s own u) : Folds o own u :=
  (still hs h).trans g

/-- What is closed adds its own region, if the tree keeps its span. -/
theorem close (hs : Orderly o) (hword : o.current.kind.IsWord) (h : Folds o.advance.2 own u)
    (kind : RegionKind) : Reaches u (recordRegion kind (o.current.span.join u.previous.span))
      fun _ v => v.previous = u.previous ∧
        Folds o (own ++ [⟨kind, o.current.span.join u.previous.span⟩].filter Region.isKept) v := by
  obtain ⟨more, hmore, hmatch⟩ := h
  refine ⟨rfl, _, hmore.close hs hword kind, fun hclean => ?_⟩
  rw [List.filter_append]
  exact (hmatch hclean).append_right _

/-- What is done within a loop is done between the state before it and the state behind it. -/
theorem leave (hs : Orderly s) (h : Folds s.enter own u) : Folds s own u.leave := by
  obtain ⟨more, hmore, hmatch⟩ := h
  refine ⟨more, ⟨hs, hmore.past.leave, hmore.regions, fun r hr => ?_, hmore.laminar⟩, hmatch⟩
  have hlies := hmore.lies r hr
  exact ⟨hlies.some, hlies.start, hlies.room, hlies.stop, hlies.since⟩

end Folds

/-- A parser fails with an error; what is recorded by then is laminar all the same. -/
def Broken (s : State) (f : Fault) (u : State) : Prop :=
  (∃ more, Records s more u) ∧ f.cause.severity = .error

namespace Broken

variable {f : Fault}

theorem still (hs : Orderly s) (h : Still s u) (hf : f.cause.severity = .error) : Broken s f u :=
  ⟨⟨[], .still hs h⟩, hf⟩

theorem after (h : Folds o own s) (g : Broken s f u) : Broken o f u := by
  obtain ⟨more, hmore, -⟩ := h
  obtain ⟨⟨later, hlater⟩, hf⟩ := g
  exact ⟨⟨more ++ later, hmore.trans hlater⟩, hf⟩

end Broken

end Grammar

end BasicCheck
