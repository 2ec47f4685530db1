import BasicCheck.Proofs.Extent.Cover
import BasicCheck.Proofs.Parse.Procedure
import BasicCheck.Proofs.Region.Block

/-!
# Regions of a whole text

Any two regions of a procedure are nested, or they do not overlap, whatever was wrong with its text. If
there is no error they match the tree: there is one for each loop, each choice and each arm of a
choice, at every depth, with the same span (`Folded`), and no other but those of the arms of decisions.
Both are read off what was recorded between the first and the last state
(**`Procedure.laminar_regions`**).
-/

namespace BasicCheck

/-! ## 1. Spans of one kind -/

/-- The spans of all regions of one kind. -/
def spansOf (kind : RegionKind) (regions : List Region) : List Span :=
  (regions.filter (·.kind == kind)).map (·.span)

/-- The spans of all statements that are folded in one way. -/
def Block.spansOf (kind : RegionKind) (ss : List Statement) : List Span :=
  (ss.filter (·.foldKind? == some kind)).map Statement.span

/-- The loops and choices of a tree are folded by regions with their spans. -/
theorem spansOf_regions {kind : RegionKind} (hkind : kind ≠ .caseArm) (ss : List Statement) :
    spansOf kind (Block.regions ss) = Block.spansOf kind ss := by
  unfold spansOf Block.spansOf
  induction ss with
  | nil => rfl
  | cons st ss ih =>
    have harms : (st.caseArms.map CaseArm.region).filter (·.kind == kind) = [] := by
      simp [CaseArm.region, hkind.symm]
    rw [Block.regions_cons, List.filter_append, List.map_append, ih, Statement.regions,
      List.filter_append, harms, List.append_nil]
    cases hfold : st.foldKind? with
    | none => simp [hfold]
    | some own => by_cases hown : own = kind <;> simp [hfold, hown]

/-- The arms of the choices of a tree are folded by regions with their spans. -/
theorem spansOf_caseArm_regions (ss : List Statement) :
    spansOf .caseArm (Block.regions ss) = (ss.flatMap Statement.caseArms).map CaseArm.span := by
  unfold spansOf
  induction ss with
  | nil => rfl
  | cons st ss ih =>
    have hown : (st.foldKind?.map (Region.mk · st.span)).toList.filter (·.kind == .caseArm) = [] := by
      cases st <;> rfl
    have harms : (st.caseArms.map CaseArm.region).filter (·.kind == .caseArm) =
        st.caseArms.map CaseArm.region :=
      List.filter_eq_self.mpr (List.forall_mem_map.mpr fun _ _ => rfl)
    rw [Block.regions_cons, List.filter_append, List.map_append, ih, Statement.regions,
      List.filter_append, hown, harms, List.nil_append, List.map_map, List.flatMap_cons,
      List.map_append]
    rfl

/-- What matches a tree does so kind by kind. -/
theorem spansOf_perm {kind : RegionKind} (hkind : ∀ span, Region.isKept ⟨kind, span⟩)
    {regions own : List Region} (h : (regions.filter Region.isKept).Perm own) :
    (spansOf kind regions).Perm (spansOf kind own) := by
  have hsame : (regions.filter Region.isKept).filter (·.kind == kind) =
      regions.filter (·.kind == kind) := by
    rw [List.filter_filter]
    refine List.filter_congr fun r _ => ?_
    by_cases hr : r.kind = kind
    · subst hr
      have hkept : r.isKept := hkind r.span
      simp [hkept]
    · simp [hr]
  unfold spansOf
  rw [← hsame]
  exact (h.filter _).map _

namespace Grammar

open Parse

variable {o s u : State}

/-! ## 2. Procedures -/

/-- Nothing is recorded by two parsers, one behind the other, however they end. -/
theorem still_bind {α β : Type} {p : Parser α} {f : α → Parser β} (h : Still o s)
    (hp : Reaches s p.run fun _ u => Still s u)
    (hf : ∀ a u, Still o u → Reaches u (f a).run fun _ v => Still o v) :
    Reaches s (p >>= f).run fun _ v => Still o v := by
  rw [ExceptT.run_bind]
  refine hp.bind fun r u hu => ?_
  cases r with
  | ok a => exact hf a u (h.trans hu)
  | error fault => exact h.trans hu

/-- Nothing is recorded by a parser that is recovered from if it records nothing itself. -/
theorem still_recover {α : Type} {p : Parser α} (standIn : α) (ho : o.Regular) (h : Still o s)
    (hp : s.Regular → Reaches s p.run fun _ u => Still s u) :
    Reaches s (recover standIn p) fun _ u => Still o u := by
  have hs := h.past.regular ho
  refine Reaches.look (outset_eq s) ((hp hs).bind fun r u hu => ?_)
  cases r with
  | ok a => exact h.trans hu
  | error f =>
    exact (still_resume (hu.past.regular hs) _ f standIn).mono fun _ _ hv => h.trans (hu.trans hv.1)

theorem still_headerAfter (kind : ProcedureKind) (hs : s.Regular) :
    Reaches s (headerAfter kind).run fun _ u => Still s u := by
  refine still_bind (.refl s) ((careful_expectIdent s).still hs) fun token u hu => ?_
  refine still_bind hu (Heeds.still (.dropped (.step (walks_trySymbols ?_))) (hu.past.regular hs))
    fun _ v hv => ?_
  · cases kind <;> exact SymbolTable.follows_declare _ token _
  · refine still_bind hv ((careful_parameters v).still (hv.past.regular hs)) fun found w hw => ?_
    exact still_bind hw still_expectSeparator fun _ _ hx => hx

/-- Nothing is recorded while a header is read. -/
theorem still_header (hs : s.Regular) : Reaches s header fun _ u => Still s u := by
  have hskip {u : State} (hu : Still s u) : Reaches u (discard advance) fun _ v => Still s v :=
    hu.trans (Quiet.advance u).still
  refine Reaches.bind (Q := fun _ u => Still s u) (quiet_skipWhile _ rfl hs).still fun _ u hu => ?_
  refine Reaches.look (sees_eq u _) ?_
  cases u.current.kind == Kind.keyword .COMPILE with
  | true =>
    refine Reaches.look (nextKind_eq u) ?_
    dsimp only
    split
    · rename_i kind _
      refine (hskip hu).bind fun _ v hv => (hskip hv).bind fun _ w hw => ?_
      exact still_recover _ hs hw (still_headerAfter kind)
    · exact (hskip hu).bind fun _ v hv => still_recover _ hs hv (careful_failHere _ v).still
  | false =>
    refine Reaches.look (currentKind_eq u) ?_
    dsimp only
    split
    · rename_i kind _
      exact (hskip hu).bind fun _ v hv => still_recover _ hs hv (still_headerAfter kind)
    · exact hu

/-- **A procedure** records the regions of its body. -/
theorem folds_procedure (hs : Orderly s) : Reaches s procedure fun found u =>
    Folds s (Block.regions (Block.all found.2)) u := by
  refine (still_header hs.regular).bind fun head u hu => ?_
  refine (folds_block folds_statement .file (hs.past hu.past)).bind fun body v hv => ?_
  have hall := hv.behind hs hu
  exact Reaches.look (p := MonadState.get) rfl
    ((hall.walk (walks_reportAll _)).bind fun _ _ hw => hw)

end Grammar

/-! ## 3. Texts -/

namespace Procedure

open Parse Grammar

/-- The spans of loops, of choices and of their arms are those of their regions, each as often. -/
structure Folded (p : Procedure) : Prop where
  counted : (spansOf .counted p.regions).Perm (Block.spansOf .counted (Block.all p.body))
  loop : (spansOf .loop p.regions).Perm (Block.spansOf .loop (Block.all p.body))
  choice : (spansOf .choice p.regions).Perm (Block.spansOf .choice (Block.all p.body))
  arms : (spansOf .caseArm p.regions).Perm
    (((Block.all p.body).flatMap Statement.caseArms).map CaseArm.span)

/-- What a text records from its first token to its last one. -/
theorem folds_readText (source : String) (file : Nat) : Folds (opening source file)
    (Block.regions (Block.all (readText source file).1.2)) (readText source file).2 := by
  have hread : readText source file = procedure (opening source file) := rfl
  rw [hread]
  exact folds_procedure (orderly_opening source file)

theorem regions_ofText (source : String) (file : Nat) :
    (ofText source file).regions = (readText source file).2.regions.toList := by
  simp only [ofText, ofTokens, readText]

/-- **Any two regions of a text are nested or do not overlap**, and without errors they match its
    tree: the spans of loops, of choices and of their arms are those of their regions. -/
theorem laminar_regions (source : String) (file : Nat) :
    ((ofText source file).regions.Pairwise fun r r' => r.span.Laminar r'.span) ∧
      ((ofText source file).hasErrors = false → (ofText source file).Folded) := by
  obtain ⟨more, hmore, hmatch⟩ := folds_readText source file
  rw [← body_ofText] at hmatch
  have hregions : (ofText source file).regions = more := by
    rw [regions_ofText, hmore.regions]
    rfl
  rw [hregions]
  refine ⟨hmore.laminar, fun hclean => ?_⟩
  have hperm := hmatch (clean_readText hclean)
  have hkind {kind : RegionKind} (hkept : ∀ span, Region.isKept ⟨kind, span⟩)
      (hkind : kind ≠ .caseArm) : (spansOf kind (ofText source file).regions).Perm
        (Block.spansOf kind (Block.all (ofText source file).body)) := by
    rw [hregions, ← spansOf_regions hkind]
    exact spansOf_perm hkept hperm
  refine ⟨hkind (fun _ => rfl) nofun, hkind (fun _ => rfl) nofun, hkind (fun _ => rfl) nofun, ?_⟩
  rw [hregions, ← spansOf_caseArm_regions]
  exact spansOf_perm (fun _ => rfl) hperm

/-- Behind an error there may be the region of a loop that is not in the tree. -/
example : (ofText "loop\nrepeat x\n" 0).regions.map (·.kind) = [.loop] ∧
    (ofText "loop\nrepeat x\n" 0).body.isEmpty := by
  decide +kernel

/-- A choice in a loop in a loop, with a decision in one of its arms. -/
def foldedText : String :=
  "for i = 1 to 3\n  loop\n    begin case\n      case i = 1\n        x = 1\n" ++
  "      case 1\n        if x then\n          x = 2\n        end\n    end case\n  repeat\nnext i\n"

/-- All kinds of regions but one. -/
theorem laminar_regions_folded : (ofText foldedText 0).hasErrors = false ∧
    (ofText foldedText 0).regions.map (·.kind) =
      [.caseArm, .thenArm, .caseArm, .choice, .loop, .counted] ∧ (ofText foldedText 0).Folded := by
  have hread : (ofText foldedText 0).hasErrors = false ∧ (ofText foldedText 0).regions.map (·.kind) =
      [.caseArm, .thenArm, .caseArm, .choice, .loop, .counted] := by decide +kernel
  exact ⟨hread.1, hread.2, (laminar_regions foldedText 0).2 hread.1⟩

end Procedure

end BasicCheck
