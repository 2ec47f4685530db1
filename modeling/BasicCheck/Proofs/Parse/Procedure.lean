import Mathlib.Data.List.Nodup
import BasicCheck.Parse.Procedure
import BasicCheck.Proofs.Parse.Block

/-!
# Runs through procedures

Reading a procedure is one run from a sound state to the state behind its last token
(`leads_procedure`, `sound_opening`). So every attempt at an index list that is taken back, wherever
it starts and whatever happened within it, has left no trace
(**`readText_traceless`**); and the statements of the body are laid on the tokens of the text
(`Procedure.laid_body`): no two of them start at the same place (**`Procedure.nodup_starts`**), and
no two identifiers in them stand at the same place (**`Procedure.nodup_idents`**).
-/

namespace BasicCheck

namespace Parse

variable {o s : State} {trace : List Event} {h : At o trace s}

/-! ## 1. Headers -/

theorem tries_parameterTurn (parameters : Array Parameter) :
    h.Tries .plain (parameterTurn parameters) fun _ _ => True := by
  refine At.Tries.look (sees_eq s _) ?_
  split
  · exact At.Tries.pure trivial
  · refine At.Tries.after (leads_consume _) fun isMatrix m1 u1 k1 _ => ?_
    refine tries_expectIdent.bind ?_
    rintro t _ u2 k2 ⟨rfl, hname⟩
    refine At.Tries.after
      (leads_trySymbols (fun _ => ⟨_, rfl, rfl⟩) (k2.newest hname).unnoted) fun _ m3 u3 k3 _ => ?_
    have hend {trace' : List Event} {u : State} (k : At o trace' u) (found : Array Parameter) :
        k.Tries .plain (do
          if ← consume .comma then return .again found
          else return .done found.toList : Parser (Turn (Array Parameter) (List Parameter)))
          fun _ _ => True := by
      refine At.Tries.after (leads_consume _) fun _ m5 u5 k5 _ => ?_
      split <;> exact At.Tries.pure trivial
    dsimp only
    split
    · exact hend k3 _
    · exact At.Tries.after (leads_report _ _) fun _ m4 u4 k4 _ => hend k4 _

theorem tries_parameters : h.Tries .plain parameters fun _ _ => True := by
  refine At.Tries.after (leads_consume _) fun _ m1 u1 k1 _ => ?_
  split
  · refine At.Tries.bind (Q := fun _ _ => True)
      (At.Tries.tryLoop (I := fun _ _ => True) trivial fun found done u k _ => ?_)
      fun found m2 u2 k2 _ => ?_
    · refine (tries_parameterTurn found).mono fun turn more _ => ?_
      cases turn <;> trivial
    · exact (tries_expect _).dropped.bind fun _ _ _ _ _ => At.Tries.pure trivial
  · exact At.Tries.pure trivial

/-- The name behind a header word is declared as what the word says. -/
theorem introduces_ofKind (kind : ProcedureKind) (t : Token) :
    Introduces (fun symbols => match kind with
      | .function => symbols.declareFunction t
      | .subroutine => symbols.declareSubroutine t
      | .insert => symbols.declareInsert t) t := by
  intro table
  cases kind
  · exact ⟨.function, rfl, rfl⟩
  · exact ⟨.subroutine, rfl, rfl⟩
  · exact ⟨.insert, rfl, rfl⟩

theorem tries_headerAfter (kind : ProcedureKind) :
    h.Tries .plain (headerAfter kind) fun _ _ => True := by
  refine tries_expectIdent.bind ?_
  rintro t _ u1 k1 ⟨rfl, hname⟩
  have hunnoted := (k1.newest hname).unnoted
  refine (At.Tries.step (leads_trySymbols (introduces_ofKind kind t) hunnoted)).dropped.bind
    fun _ m2 u2 k2 _ => ?_
  refine tries_parameters.bind fun found m3 u3 k3 _ => ?_
  exact tries_expectSeparator.bind fun _ _ _ _ _ => At.Tries.pure trivial

/-- A header whose first word is known. -/
theorem leads_headerOf (compiled : Bool) (kind : Option ProcedureKind) :
    h.Leads .silent (match kind with
      | some kind => do
        if compiled then discard advance
        discard advance
        recover .anonymous (headerAfter kind)
      | none =>
        if compiled then do
          discard advance
          recover .anonymous (failHere (.expected "FUNCTION, SUBROUTINE or INSERT"))
        else return .anonymous) fun _ _ => True := by
  have hrecover {trace' : List Event} {u : State} (k : At o trace' u) {p : Parser Header}
      (hp : k.Tries .plain p fun _ _ => True) :
      k.Leads .silent (recover .anonymous p) fun _ _ => True :=
    leads_recover (fun _ => rfl) (hp.plain.mono fun _ _ _ => trivial) fun _ _ => trivial
  have hrest (kind : ProcedureKind) {trace' : List Event} {u : State} (k : At o trace' u) :
      k.Leads .silent (do
        discard advance
        recover .anonymous (headerAfter kind)) fun _ _ => True :=
    (leads_advance' (h := k)).dropped.bind fun _ _ _ k' _ => hrecover k' (tries_headerAfter kind)
  split
  · dsimp only
    split
    · exact leads_advance'.dropped.bind fun _ _ _ k1 _ => hrest _ k1
    · exact hrest _ h
  · split
    · exact leads_advance'.dropped.bind fun _ _ _ k1 _ => hrecover k1 (tries_failHere rfl)
    · exact At.Leads.pure trivial

theorem leads_header : h.Leads .silent header fun _ _ => True := by
  refine (leads_skipWhile _).plain.bind fun _ m1 u1 k1 _ => ?_
  refine At.Leads.look (sees_eq u1 _) ?_
  cases hcompiled : u1.current.kind == Kind.keyword .COMPILE with
  | true => exact At.Leads.look (nextKind_eq u1) (leads_headerOf true _)
  | false => exact At.Leads.look (currentKind_eq u1) (leads_headerOf false _)

/-! ## 2. Procedures -/

theorem leads_reportAll (found : List (String × Span)) :
    h.Leads .plain (found.forM fun (label, span) => report (.undefinedLabel label) span)
      fun _ more => more = found.map fun (label, span) =>
        .reports (.ofFault ⟨.undefinedLabel label, span⟩) := by
  induction found generalizing trace s with
  | nil => exact At.Leads.pure rfl
  | cons first rest ih =>
    refine (leads_report _ _).bind fun _ m1 u1 k1 hm1 => ih.mono fun _ m2 hm2 => ?_
    rw [hm1, hm2]
    rfl

/-- **Reading a procedure is a run**, and its body is laid on the tokens that are read. If there is no
    error, no label is left that was only referred to. -/
theorem leads_procedure :
    h.Leads .statement procedure fun found more => Laid (Block.all found.2) more ∧
      (Clean more → (more.foldl Event.act s).symbols.unresolvedLabels = []) := by
  refine leads_header.silent.bind fun head m1 u1 k1 hm1 => ?_
  refine (leads_block lays_statement .file).bind fun body m2 u2 k2 hbody => ?_
  refine At.Leads.look (p := MonadState.get) rfl ?_
  refine (leads_reportAll _).plain.bind fun _ m3 u3 k3 hm3 => At.Leads.pure ⟨?_, fun hclean => ?_⟩
  · rw [List.append_nil]
    exact (hbody.before hm3.2).behind hm1.2
  · obtain ⟨hreports, -⟩ := hm3
    have hnone : u2.symbols.unresolvedLabels = [] := by
      cases hlabels : u2.symbols.unresolvedLabels with
      | nil => rfl
      | cons first rest =>
        refine absurd hclean (not_clean (f := ⟨.undefinedLabel first.1, first.2⟩) rfl ?_)
        rw [hreports, hlabels]
        exact List.mem_append_right _ (List.mem_append_right _ List.mem_cons_self)
    have hstate : u2 = (m1 ++ (m2 ++ (m3 ++ []))).foldl Event.act s := by
      rw [hreports, hnone, k2.run.eq_foldl, List.append_assoc, List.foldl_append,
        ← h.run.eq_foldl]
      simp
    rw [← hstate]
    exact hnone

theorem sound_opening {primary : List Token} (horder : InOrder primary) (faults : List Fault) :
    (State.opening primary faults).Sound where
  eof := rfl
  split h := nomatch h
  order := horder
  table := SymbolTable.sound_empty
  behind h := by simp [State.opening, State.initial, SymbolTable.empty] at h
  traceless h := h.elim
  counted h := absurd h (Nat.lt_irrefl 0)

/-- The run of a text. -/
theorem exists_run_readText (source : String) (file : Nat) :
    ∃ trace, At (.opening (Lexed.ofText source file).primary (Lexed.ofText source file).faults)
        trace (readText source file).2 ∧
      Laid (Block.all (readText source file).1.2) trace ∧
      (Clean trace → (readText source file).2.symbols.unresolvedLabels = []) := by
  have hsound := sound_opening (Lexed.inOrder_primary source file) (Lexed.ofText source file).faults
  have hstart : At _ [] _ := ⟨hsound, .start⟩
  have hleads := leads_procedure (h := hstart)
  unfold At.Leads at hleads
  rw [show procedure _ = readText source file from rfl] at hleads
  obtain ⟨more, hat, -, hlaid, hresolved⟩ := hleads
  rw [List.nil_append] at hat
  rw [← hat.run.eq_foldl] at hresolved
  exact ⟨more, hat, hlaid, hresolved⟩

/-- **A failed attempt leaves no trace**: wherever in a text an attempt at an index list is taken
    back, everything is known that was known before it, and no more; and it did not start between
    the halves of a token. -/
theorem readText_traceless (source : String) (file : Nat) {attempt : Attempt}
    (h : (readText source file).2.takenBack attempt) :
    attempt.after = attempt.before ∧ attempt.before.split = none := by
  obtain ⟨trace, hat, -⟩ := exists_run_readText source file
  exact hat.state_sound.traceless h

/-- A comparison is first tried as an index list. -/
theorem readText_traceless_comparison :
    ∃ attempt, (readText "if a < b then c = 1\n" 0).2.takenBack attempt ∧
      attempt.after = attempt.before ∧ attempt.before.split = none := by
  obtain ⟨trace, hat, -⟩ := exists_run_readText "if a < b then c = 1\n" 0
  have hcount : 0 < (readText "if a < b then c = 1\n" 0).2.retreats := by decide +kernel
  obtain ⟨attempt, hattempt⟩ := hat.state_sound.counted hcount
  exact ⟨attempt, hattempt, readText_traceless _ _ hattempt⟩

/-! ## 3. Apart -/

theorem Fits.nodup {κ : Type} [DecidableEq κ] {key : Token → κ} {keys : List κ}
    {trace : List Event} (h : Fits key keys trace) (hread : ((readBy trace).map key).Nodup) :
    keys.Nodup :=
  List.nodup_iff_count_le_one.mpr fun k =>
    Nat.le_trans (h k) (List.nodup_iff_count_le_one.mp hread k)

/-- What is read from a text has been read in order. -/
theorem At.inOrder_readBy (h : At o trace s) : InOrder (readBy trace) := by
  have horder := h.sound.order
  rw [h.run.tokens_eq] at horder
  exact horder.sublist (List.sublist_append_left _ _)

end Parse

open Parse

theorem InOrder.nodup_starts {tokens : List Token} (h : InOrder tokens) :
    (tokens.map startOf).Nodup := by
  refine List.pairwise_map.mpr (List.Pairwise.imp (fun hab heq => ?_) h)
  obtain ⟨hlt, -⟩ := hab
  rw [show Span.start (Token.span _) = _ from heq] at hlt
  exact Place.lt_irrefl _ hlt

theorem InOrder.nodup_spans {tokens : List Token} (h : InOrder tokens) :
    (tokens.map Token.span).Nodup := by
  have hstarts := h.nodup_starts
  rw [show tokens.map startOf = (tokens.map Token.span).map Span.start by simp [startOf]] at hstarts
  exact hstarts.of_map

namespace Procedure

theorem header_ofText (source : String) (file : Nat) :
    (ofText source file).header = (readText source file).1.1 := by
  simp only [ofText, ofTokens, readText]

theorem body_ofText (source : String) (file : Nat) :
    (ofText source file).body = (readText source file).1.2 := by
  simp only [ofText, ofTokens, readText]

theorem labels_ofText (source : String) (file : Nat) :
    (ofText source file).labels = .ofBody (ofText source file).body := by
  simp only [ofText, ofTokens]

/-- **No two statements of a procedure start at the same place.** -/
theorem nodup_starts (source : String) (file : Nat) :
    ((Block.all (ofText source file).body).map (·.span.start)).Nodup := by
  obtain ⟨trace, hat, hlaid, -⟩ := exists_run_readText source file
  rw [body_ofText]
  exact hlaid.starts.nodup hat.inOrder_readBy.nodup_starts

/-- **No two identifiers of a procedure stand at the same place.** -/
theorem nodup_idents (source : String) (file : Nat) :
    (((Block.all (ofText source file).body).flatMap Statement.idents).map Ident.span).Nodup := by
  obtain ⟨trace, hat, hlaid, -⟩ := exists_run_readText source file
  rw [body_ofText]
  exact Fits.nodup hlaid.names hat.inOrder_readBy.nodup_spans

theorem writesCounter (source : String) (file : Nat) :
    ∀ s ∈ Block.all (ofText source file).body, s.WritesCounter := by
  obtain ⟨trace, -, hlaid, -⟩ := exists_run_readText source file
  rw [body_ofText]
  exact hlaid.accounts.counters

/-- All statements of a procedure are different. -/
theorem nodup_all (source : String) (file : Nat) : (Block.all (ofText source file).body).Nodup :=
  (nodup_starts source file).of_map

end Procedure

end BasicCheck
