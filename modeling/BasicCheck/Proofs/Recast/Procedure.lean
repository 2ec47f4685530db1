import BasicCheck.Parse.Procedure
import BasicCheck.Proofs.Recast.Block

/-!
# Procedures that are written anew

What is read from tokens that are written anew is what is read from the tokens, written anew
(**`Procedure.recasts_ofTokens`**), as far as each token suits that.
-/

namespace BasicCheck

variable {ρ : Recast}

/-- The parameter that is written anew. -/
def Parameter.recast (ρ : Recast) (p : Parameter) : Parameter :=
  { p with name := p.name.recast ρ }

/-- The header that is written anew. -/
def Header.recast (ρ : Recast) (head : Header) : Header :=
  { head with name := ρ.text head.name, parameters := head.parameters.map (Parameter.recast ρ) }

theorem Header.recast_anonymous : anonymous.recast ρ = anonymous := by
  rw [recast, anonymous, ρ.text_of_small (s := "") (by decide), List.map_nil]

namespace Parse

/-! ## 1. Headers -/

theorem follows_parameterTurn (found : Array Parameter) :
    Parser.Follows ρ (Turn.map (Array.map (Parameter.recast ρ)) (List.map (Parameter.recast ρ)))
      (parameterTurn found) (parameterTurn (found.map (Parameter.recast ρ))) := by
  refine .after (follows_sees _) fun closed => ?_
  split
  · exact .pure (congrArg Turn.done Array.toList_map)
  · refine .after (follows_consume _) fun isMatrix => ?_
    refine follows_expectIdent.bind fun token => ?_
    have hparameter : (⟨⟨(token.recast ρ).text, .assignment, (token.recast ρ).span⟩, isMatrix⟩ :
        Parameter) = Parameter.recast ρ ⟨⟨token.text, .assignment, token.span⟩, isMatrix⟩ := rfl
    refine .after (follows_trySymbols fun h => ?_) fun done => ?_
    · cases isMatrix with
      | true => exact h.declare token (.variable .parameter (.matrix none none))
      | false => exact h.declare token (.variable .parameter .dynamic)
    rw [hparameter, ← Array.map_push]
    have hend (found : Array Parameter) : Parser.Follows ρ
        (Turn.map (Array.map (Parameter.recast ρ)) (List.map (Parameter.recast ρ)))
        (do if ← consume .comma then return .again found else return .done found.toList)
        (do
          if ← consume .comma then return .again (found.map (Parameter.recast ρ))
          else return .done (found.map (Parameter.recast ρ)).toList) := by
      refine .after (follows_consume _) fun another => ?_
      split
      · exact .pure rfl
      · exact .pure (congrArg Turn.done Array.toList_map)
    dsimp only
    split
    · exact hend _
    · exact .after (follows_report rfl _) fun _ => hend _

theorem follows_parameters :
    Parser.Follows ρ (List.map (Parameter.recast ρ)) parameters parameters := by
  refine .after (follows_consume _) fun found => ?_
  split
  · have hturns := Parser.Follows.tryLoop (g := Array.map (Parameter.recast ρ))
      follows_parameterTurn #[]
    rw [Array.map_empty] at hturns
    exact hturns.bind fun found => (follows_expect _).dropped.ask fun _ => .pure rfl
  · exact .pure rfl

theorem follows_headerAfter (kind : ProcedureKind) :
    Parser.Follows ρ (Header.recast ρ) (headerAfter kind) (headerAfter kind) := by
  refine follows_expectIdent.bind fun token => ?_
  refine .past (follows_trySymbols fun h => ?_) fun _ => ?_
  · cases kind with
    | function => exact h.declare token .function
    | subroutine => exact h.declare token .subroutine
    | insert => exact h.declare token .insert
  · refine follows_parameters.bind fun found => ?_
    exact follows_expectSeparator.ask fun _ => .pure rfl

theorem follows_header : Step.Follows ρ (Header.recast ρ) header header := by
  have hrest (kind : ProcedureKind) : Step.Follows ρ (Header.recast ρ)
      (do
        discard advance
        recover .anonymous (headerAfter kind))
      (do
        discard advance
        recover .anonymous (headerAfter kind)) :=
    follows_advance.dropped.ask fun _ =>
      follows_recover Header.recast_anonymous.symm (follows_headerAfter kind)
  refine follows_skipNewlines.ask fun _ => (follows_sees _).ask fun compiled => ?_
  dsimp only
  split
  · refine follows_nextKind.ask fun kind => ?_
    cases procedureKind? kind with
    | some kind => exact follows_advance.dropped.ask fun _ => hrest kind
    | none =>
      exact follows_advance.dropped.ask fun _ =>
        follows_recover Header.recast_anonymous.symm (follows_failHere rfl)
  · refine follows_currentKind.ask fun kind => ?_
    cases procedureKind? kind with
    | some kind => exact hrest kind
    | none => exact .pure Header.recast_anonymous.symm

/-! ## 2. Procedures -/

/-- What is done for each member of a list is done for its counterparts in the other one. -/
theorem follows_forM {α : Type} {f k : α → Step Unit} {m : α → α}
    (hf : ∀ a, Step.Follows ρ id (f a) (k (m a))) (as : List α) :
    Step.Follows ρ id (as.forM f) ((as.map m).forM k) := by
  induction as with
  | nil => exact .pure rfl
  | cons a rest ih => exact (hf a).ask fun _ => ih

/-- **A procedure is read in the same way** from what is written anew. -/
theorem follows_procedure :
    Step.Follows ρ (Prod.map (Header.recast ρ) (List.map (Statement.recast ρ))) procedure
      procedure := by
  refine follows_header.bind fun head => ?_
  refine (follows_block .file follows_statement).bind fun body => ?_
  refine Step.Follows.look fun s t hs => ?_
  rw [hs.symbols.unresolvedLabels]
  refine (follows_forM (fun found => ?_) _).ask fun _ => .pure rfl
  exact follows_report rfl found.2

/-- The states before the first token are written anew with the tokens and the faults. -/
theorem State.recasts_opening {primary : List Token} (faults : List Fault)
    (hsuits : ∀ token ∈ primary, token.Suits ρ) :
    (State.opening primary faults).Recasts ρ
      (State.opening (primary.map (Token.recast ρ)) (faults.map (Fault.recast ρ))) where
  rest := rfl
  last := rfl
  split := rfl
  eof := by
    show Token.endAt (((primary.map (Token.recast ρ)).getLast?.map (·.span)).getD .blank) =
      (Token.endAt ((primary.getLast?.map (·.span)).getD .blank)).recast ρ
    rw [Token.recast_endAt, List.getLast?_map]
    cases primary.getLast? with
    | none => exact congrArg Token.endAt Span.recast_blank.symm
    | some token => rfl
  symbols := .refl_empty
  diagnostics := by
    show (((faults.map (Fault.recast ρ)).map Diagnostic.ofFault).toArray).map
        (Diagnostic.reworded ρ) =
      ((faults.map Diagnostic.ofFault).toArray).map (Diagnostic.recast ρ)
    rw [List.map_toArray, List.map_toArray, List.map_map, List.map_map, List.map_map]
    exact congrArg (fun f => (faults.map f).toArray) (funext Diagnostic.reworded_ofFault)
  regions := Array.map_empty.symm
  loopDepth := rfl
  suits := hsuits
  halves := nofun
  eof_kind := rfl

end Parse

/-! ## 3. Diagnostics in the order of the text -/

namespace Diagnostic

variable (found : List Diagnostic)

theorem mergeSort_reworded :
    (found.mergeSort fun a b => a.span.start ≤ b.span.start).map (reworded ρ) =
      (found.map (reworded ρ)).mergeSort fun a b => a.span.start ≤ b.span.start :=
  List.map_mergeSort fun _ _ _ _ => rfl

theorem mergeSort_recast :
    (found.mergeSort fun a b => a.span.start ≤ b.span.start).map (Diagnostic.recast ρ) =
      (found.map (Diagnostic.recast ρ)).mergeSort fun a b => a.span.start ≤ b.span.start :=
  List.map_mergeSort fun a _ b _ =>
    decide_eq_decide.mpr (ρ.place_le a.span.start b.span.start).symm

end Diagnostic

/-- The second procedure is the first one, written anew, as far as its text and its tokens do not
    come into it. -/
structure Procedure.Recasts (ρ : Recast) (p q : Procedure) : Prop where
  header : q.header = p.header.recast ρ
  body : q.body = p.body.map (Statement.recast ρ)
  symbols : p.symbols.Recasts ρ q.symbols
  labels : q.labels = p.labels
  /-- Messages have words of their own. -/
  diagnostics : q.diagnostics.map (Diagnostic.reworded ρ) = p.diagnostics.map (Diagnostic.recast ρ)
  regions : q.regions = p.regions.map (Region.recast ρ)

/-- **Procedures are written anew with the tokens that they are read from.** -/
theorem Procedure.recasts_ofTokens {primary : List Token} (hsuits : ∀ token ∈ primary, token.Suits ρ)
    (faults : List Fault) (source source' : String) (tokens tokens' : List Token)
    (file file' : Nat) :
    (ofTokens primary faults source tokens file).Recasts ρ
      (ofTokens (primary.map (Token.recast ρ)) (faults.map (Fault.recast ρ)) source' tokens'
        file') := by
  obtain ⟨hresult, hs⟩ := Parse.follows_procedure _ _ (Parse.State.recasts_opening faults hsuits)
  unfold ofTokens
  generalize Parse.procedure (.opening primary faults) = found at hresult hs
  generalize Parse.procedure (.opening (primary.map _) _) = found' at hresult hs
  have hdiagnostics := congrArg Array.toList hs.diagnostics
  rw [Array.toList_map, Array.toList_map] at hdiagnostics
  have hbody := congrArg Prod.snd hresult
  exact {
    header := congrArg Prod.fst hresult
    body := hbody
    symbols := hs.symbols
    labels := (congrArg LabelTable.ofBody hbody).trans (LabelTable.ofBody_recast _)
    diagnostics := by
      rw [Diagnostic.mergeSort_reworded, hdiagnostics, Diagnostic.mergeSort_recast]
    regions := (congrArg Array.toList hs.regions).trans Array.toList_map }

end BasicCheck
