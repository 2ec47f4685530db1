import BasicCheck.Parse.Block
import BasicCheck.Proofs.Recast.Symbol

/-!
# Runs that are written anew

A state is written anew if what remains to be read and what has been found are (`State.Recasts`). A
step follows another one if it leads from states to states that are written anew, with the result
written anew (`Step.Follows`, `Parser.Follows`). This is kept by everything that the grammar puts
its steps together with (**`Parser.Follows.bind`**, **`Parser.Follows.tryLoop`**,
**`Parser.Follows.nest`**), so that it remains to be shown of each step by itself.
-/

namespace BasicCheck

variable {ρ : Recast}

/-- The region that is written anew. -/
def Region.recast (ρ : Recast) (r : Region) : Region := { r with span := r.span.recast ρ }

namespace Parse

/-! ## 1. States -/

/-- The second state is the first one, written anew. -/
structure State.Recasts (ρ : Recast) (s t : State) : Prop where
  rest : t.rest.tokens = s.rest.tokens.map (Token.recast ρ)
  last : t.last = s.last.map (Token.recast ρ)
  split : t.split = s.split.map (Token.recast ρ)
  eof : t.eof = s.eof.recast ρ
  symbols : s.symbols.Recasts ρ t.symbols
  diagnostics :
    t.diagnostics.map (Diagnostic.reworded ρ) = s.diagnostics.map (Diagnostic.recast ρ)
  regions : t.regions = s.regions.map (Region.recast ρ)
  loopDepth : t.loopDepth = s.loopDepth
  suits : ∀ token ∈ s.rest.tokens, token.Suits ρ
  halves : ∀ {whole}, s.split = some whole → whole.Halves ρ
  eof_kind : s.eof.kind = .endOfFile

namespace State.Recasts

variable {s t : State}

theorem current (h : s.Recasts ρ t) : t.current = s.current.recast ρ := by
  unfold State.current
  rw [h.split, h.rest, h.eof]
  cases hsplit : s.split with
  | some whole => exact (h.halves hsplit).equal
  | none => cases s.rest.tokens <;> rfl

theorem next? (h : s.Recasts ρ t) : t.next? = s.next?.map (Token.recast ρ) := by
  unfold State.next?
  rw [h.split, h.rest]
  cases s.split with
  | some whole => exact List.head?_map
  | none => exact List.getElem?_map

theorem previous (h : s.Recasts ρ t) : t.previous = s.previous.recast ρ := by
  unfold State.previous
  rw [h.split, h.last, h.current]
  cases hsplit : s.split with
  | some whole => exact (h.halves hsplit).greater
  | none => cases s.last <;> rfl

theorem size (h : s.Recasts ρ t) : t.size = s.size := by
  unfold State.size
  rw [t.rest.count_eq, s.rest.count_eq, h.rest, h.split, List.length_map, Option.isSome_map]

/-- What comes next is an unread token, or it needs nothing of its own. -/
theorem suits_current (h : s.Recasts ρ t) : s.current.Suits ρ := by
  unfold State.current
  cases s.split with
  | some whole => exact Token.suits_of_kind nofun nofun
  | none =>
    cases hrest : s.rest.tokens with
    | nil =>
      refine Token.suits_of_kind ?_ ?_
      · exact fun hkind => by cases h.eof_kind.symm.trans hkind
      · exact fun hkind => by cases h.eof_kind.symm.trans hkind
    | cons token rest => exact h.suits token (hrest ▸ List.mem_cons_self)

theorem advance (h : s.Recasts ρ t) :
    t.advance.1 = s.advance.1.recast ρ ∧ s.advance.2.Recasts ρ t.advance.2 := by
  unfold State.advance
  rw [h.split]
  cases hsplit : s.split with
  | some whole => exact ⟨(h.halves hsplit).equal, { h with split := rfl, halves := nofun }⟩
  | none =>
    have htail : t.rest.tokens.tail = s.rest.tokens.tail.map (Token.recast ρ) := by
      rw [h.rest, List.map_tail]
    rw [h.rest]
    cases hrest : s.rest.tokens with
    | nil => exact ⟨h.eof, h⟩
    | cons token rest =>
      exact ⟨rfl, { h with
        rest := htail
        last := rfl
        split := rfl
        halves := nofun
        suits := fun u hu => h.suits u (List.mem_of_mem_tail hu) }⟩

end State.Recasts

/-! ## 2. Steps -/

variable {α β : Type} {g : α → α} {h : β → β}

/-- The second step does to a recast state what the first one does to the state itself. -/
def Step.Follows (ρ : Recast) (g : α → α) (p q : Step α) : Prop :=
  ∀ s t, s.Recasts ρ t → (q t).1 = g (p s).1 ∧ (p s).2.Recasts ρ (q t).2

namespace Step.Follows

variable {p q : Step α} {f k : α → Step β}

theorem pure {a b : α} (hab : b = g a) : Follows ρ g (Pure.pure a) (Pure.pure b) :=
  fun _ _ hs => ⟨hab, hs⟩

theorem bind (hp : Follows ρ g p q) (hf : ∀ a, Follows ρ h (f a) (k (g a))) :
    Follows ρ h (p >>= f) (q >>= k) := by
  intro s t hs
  obtain ⟨ha, hs'⟩ := hp s t hs
  have hrest := hf (p s).1 (p s).2 (q t).2 hs'
  rw [← ha] at hrest
  exact hrest

/-- A step in front whose result stays. -/
theorem ask (hp : Follows ρ id p q) (hf : ∀ a, Follows ρ h (f a) (k a)) :
    Follows ρ h (p >>= f) (q >>= k) :=
  bind hp hf

/-- A step in front that only looks at the state. -/
theorem look {f k : State → Step β} (hf : ∀ s t, s.Recasts ρ t → Follows ρ h (f s) (k t)) :
    Follows ρ h (get >>= f) (get >>= k) :=
  fun s t hs => hf s t hs s t hs

theorem dropped (hp : Follows ρ g p q) : Follows ρ id (discard p) (discard q) :=
  fun s t hs => ⟨rfl, (hp s t hs).2⟩

/-- A step that changes the state and nothing else. -/
theorem modify {f k : State → State} (hf : ∀ s t, s.Recasts ρ t → (f s).Recasts ρ (k t)) :
    Follows ρ id (modify f) (modify k) :=
  fun s t hs => ⟨rfl, hf s t hs⟩

end Step.Follows

/-! ## 3. Parsers -/

/-- What a parser ends with, written anew, be it a success or a fault. -/
def recastResult (ρ : Recast) (g : α → α) : Except Fault α → Except Fault α
  | .ok a => .ok (g a)
  | .error fault => .error (fault.recast ρ)

/-- The second parser does to a recast state what the first one does to the state itself. -/
def Parser.Follows (ρ : Recast) (g : α → α) (p q : Parser α) : Prop :=
  Step.Follows ρ (recastResult ρ g) p.run q.run

namespace Parser.Follows

variable {p q : Parser α} {f k : α → Parser β}

theorem pure {a b : α} (hab : b = g a) : Follows ρ g (Pure.pure a) (Pure.pure b) :=
  Step.Follows.pure (congrArg Except.ok hab)

theorem throw {a b : Fault} (hab : b = a.recast ρ) :
    Follows ρ g (MonadExcept.throw a) (MonadExcept.throw b) :=
  Step.Follows.pure (congrArg Except.error hab)

theorem bind (hp : Follows ρ g p q) (hf : ∀ a, Follows ρ h (f a) (k (g a))) :
    Follows ρ h (p >>= f) (q >>= k) := by
  unfold Follows
  rw [ExceptT.run_bind, ExceptT.run_bind]
  refine Step.Follows.bind hp fun result => ?_
  cases result with
  | ok a => exact hf a
  | error fault => exact Step.Follows.pure rfl

/-- A parser in front whose result stays. -/
theorem ask (hp : Follows ρ id p q) (hf : ∀ a, Follows ρ h (f a) (k a)) :
    Follows ρ h (p >>= f) (q >>= k) :=
  bind hp hf

/-- A result in front that is there already. -/
theorem given {a b : α} (hf : Follows ρ h (f a) (k b)) :
    Follows ρ h (Pure.pure a >>= f) (Pure.pure b >>= k) := by
  rw [pure_bind, pure_bind]
  exact hf

/-- A step as a parser. -/
theorem step {p q : Step α} (hp : Step.Follows ρ g p q) : Follows ρ g (liftM p) (liftM q) :=
  fun s t hs => ⟨congrArg Except.ok (hp s t hs).1, (hp s t hs).2⟩

/-- A step in front. -/
theorem take {p q : Step α} (hp : Step.Follows ρ g p q) (hf : ∀ a, Follows ρ h (f a) (k (g a))) :
    Follows ρ h (liftM p >>= f) (liftM q >>= k) :=
  (step hp).bind hf

/-- A step in front whose result stays. -/
theorem after {p q : Step α} (hp : Step.Follows ρ id p q) (hf : ∀ a, Follows ρ h (f a) (k a)) :
    Follows ρ h (liftM p >>= f) (liftM q >>= k) :=
  take hp hf

theorem get {f k : State → Parser β} (hf : ∀ s t, s.Recasts ρ t → Follows ρ h (f s) (k t)) :
    Follows ρ h (MonadState.get >>= f) (MonadState.get >>= k) :=
  fun s t hs => hf s t hs s t hs

theorem map {f k : α → β} (hp : Follows ρ g p q) (hf : ∀ a, k (g a) = h (f a)) :
    Follows ρ h (f <$> p) (k <$> q) := by
  rw [map_eq_pure_bind, map_eq_pure_bind]
  exact hp.bind fun a => pure (hf a)

theorem dropped (hp : Follows ρ g p q) : Follows ρ id (discard p) (discard q) := by
  unfold discard
  rw [map_const]
  exact hp.map fun _ => rfl

/-- A step in front whose result is not looked at. -/
theorem past {p q : Step α} {f k : Unit → Parser β} (hp : Step.Follows ρ g p q)
    (hf : ∀ a, Follows ρ h (f a) (k a)) :
    Follows ρ h (discard (liftM p) >>= f) (discard (liftM q) >>= k) :=
  (step hp).dropped.bind hf

end Parser.Follows

/-! ## 4. Repetition and nesting -/

/-- What a turn ends with, written anew. -/
def Turn.map (g : α → α) (h : β → β) : Turn α β → Turn α β
  | .again a => .again (g a)
  | .done b => .done (h b)

/-- **Loops follow each other if their turns do.** -/
theorem Step.Follows.loop {body body' : α → Step (Turn α β)} {giveUp giveUp' : α → β}
    (hbody : ∀ a, Follows ρ (Turn.map g h) (body a) (body' (g a)))
    (hgiveUp : ∀ a, giveUp' (g a) = h (giveUp a)) (a : α) :
    Follows ρ h (loop body giveUp a) (Parse.loop body' giveUp' (g a)) := by
  have hturns (n : Nat) :
      ∀ a, Follows ρ h (loopUpTo body giveUp n a) (loopUpTo body' giveUp' n (g a)) := by
    induction n with
    | zero => exact fun a => pure (hgiveUp a)
    | succ n ih =>
      refine fun a => bind (hbody a) fun turn => ?_
      cases turn with
      | again a => exact ih a
      | done b => exact pure rfl
  refine look fun s t hs => ?_
  rw [hs.size]
  exact hturns _ a

theorem recast_standstill : standstill.recast ρ = standstill := by
  rw [standstill, Fault.recast, Span.recast_blank]
  rfl

/-- **Loops whose turns may fail follow each other if their turns do.** -/
theorem Parser.Follows.tryLoop {body body' : α → Parser (Turn α β)}
    (hbody : ∀ a, Follows ρ (Turn.map g h) (body a) (body' (g a))) (a : α) :
    Follows ρ h (Parse.tryLoop body a) (Parse.tryLoop body' (g a)) := by
  have hgiveUp : Except.error standstill = recastResult ρ h (.error standstill) :=
    congrArg Except.error recast_standstill.symm
  refine Step.Follows.loop (g := g) (h := recastResult ρ h) (fun a => ?_) (fun _ => hgiveUp) a
  refine Step.Follows.bind (hbody a) fun result => ?_
  cases result with
  | ok turn => cases turn <;> exact Step.Follows.pure rfl
  | error fault => exact Step.Follows.pure rfl

/-- **Parsers that contain themselves follow each other if their layers do.** -/
theorem Parser.Follows.nest {layer layer' : Parser α → Parser α}
    (hlayer : ∀ p q, Follows ρ g p q → Follows ρ g (layer p) (layer' q)) :
    Follows ρ g (Parse.nest layer) (Parse.nest layer') := by
  have hlayers (n : Nat) : Follows ρ g (nestUpTo layer n) (nestUpTo layer' n) := by
    induction n with
    | zero => exact throw recast_standstill.symm
    | succ n ih => exact hlayer _ _ ih
  refine get fun s t hs => ?_
  rw [hs.size]
  exact hlayers _

/-! ## 5. Looking -/

theorem follows_current : Step.Follows ρ (Token.recast ρ) current current :=
  fun _ _ hs => ⟨hs.current, hs⟩

theorem follows_currentKind : Step.Follows ρ id currentKind currentKind := by
  refine fun s t hs => ⟨?_, hs⟩
  show t.current.kind = s.current.kind
  rw [hs.current, Token.kind_recast]

theorem follows_nextKind : Step.Follows ρ id nextKind nextKind := by
  refine fun s t hs => ⟨?_, hs⟩
  show (t.next?.map (·.kind)).getD .endOfFile = (s.next?.map (·.kind)).getD .endOfFile
  rw [hs.next?, Option.map_map]
  rfl

theorem follows_sees (kind : Kind) : Step.Follows ρ id (sees kind) (sees kind) := by
  refine fun s t hs => ⟨?_, hs⟩
  show (t.current.kind == kind) = (s.current.kind == kind)
  rw [hs.current, Token.kind_recast]

theorem follows_atStatementEnd : Step.Follows ρ id atStatementEnd atStatementEnd := by
  refine follows_currentKind.ask fun kind => ?_
  split <;> exact Step.Follows.pure rfl

theorem follows_spanFrom (start : Span) :
    Step.Follows ρ (Span.recast ρ) (spanFrom start) (spanFrom (start.recast ρ)) := by
  refine fun s t hs => ⟨?_, hs⟩
  show (start.recast ρ).join t.previous.span = (start.join s.previous.span).recast ρ
  rw [hs.previous, Token.span_recast, Span.recast_join]

/-! ## 6. Reading -/

theorem follows_advance : Step.Follows ρ (Token.recast ρ) advance advance :=
  fun _ _ hs => hs.advance

theorem follows_consume (kind : Kind) : Step.Follows ρ id (consume kind) (consume kind) := by
  refine (follows_sees kind).ask fun seen => ?_
  split
  · exact follows_advance.dropped.ask fun _ => .pure rfl
  · exact .pure rfl

theorem follows_failHere {cause cause' : Cause} (hcause : cause' = cause.recast ρ) :
    Parser.Follows ρ g (failHere cause) (failHere cause') :=
  .take follows_current fun _ => .throw (by rw [hcause]; rfl)

theorem follows_expect (kind : Kind) :
    Parser.Follows ρ (Token.recast ρ) (expect kind) (expect kind) := by
  refine .after (follows_sees kind) fun seen => ?_
  split
  · exact .step follows_advance
  · refine .take follows_current fun token => follows_failHere ?_
    rw [Token.describe_recast]
    rfl

theorem follows_expectIdent :
    Parser.Follows ρ (Token.recast ρ) expectIdent expectIdent := by
  refine .after (follows_sees .ident) fun seen => ?_
  split
  · exact .step follows_advance
  · exact follows_failHere rfl

theorem follows_expectSeparator : Parser.Follows ρ id expectSeparator expectSeparator := by
  refine .after follows_currentKind fun kind => ?_
  split
  · exact .step follows_advance.dropped
  · exact .step follows_advance.dropped
  · exact .pure rfl
  · refine .take follows_current fun token => follows_failHere ?_
    rw [Token.describe_recast]
    rfl

theorem follows_skipWhile (skipped : Kind → Bool) :
    Step.Follows ρ id (skipWhile skipped) (skipWhile skipped) := by
  refine Step.Follows.loop (g := id) (fun _ => ?_) (fun _ => rfl) ()
  refine follows_currentKind.ask fun kind => ?_
  split
  · exact follows_advance.dropped.ask fun _ => .pure rfl
  · exact .pure rfl

theorem follows_skipNewlines : Step.Follows ρ id skipNewlines skipNewlines :=
  follows_skipWhile _

theorem follows_synchronize : Step.Follows ρ id synchronize synchronize := by
  refine (follows_skipWhile _).ask fun _ => (follows_sees .endOfFile).ask fun seen => ?_
  split
  · exact .pure rfl
  · exact follows_advance.dropped

theorem follows_commaList {item item' : Parser α} (hitem : Parser.Follows ρ g item item') :
    Parser.Follows ρ (List.map g) (commaList item) (commaList item') := by
  refine hitem.bind fun first => ?_
  have hstart : #[g first] = Array.map g #[first] := by simp
  rw [hstart]
  refine Parser.Follows.bind (g := Array.map g) (.tryLoop (g := Array.map g) (fun items => ?_) _)
    fun items => .pure Array.toList_map
  refine .after (follows_consume .comma) fun found => ?_
  split
  · exact hitem.bind fun a => .pure (congrArg Turn.again Array.map_push.symm)
  · exact .pure rfl

/-! ## 7. Recording -/

theorem follows_reportFault (fault : Fault) :
    Step.Follows ρ id (reportFault fault) (reportFault (fault.recast ρ)) :=
  Step.Follows.modify fun _ _ hs => { hs with
    diagnostics := by
      rw [Array.map_push, Array.map_push, hs.diagnostics, Diagnostic.reworded_ofFault] }

theorem follows_report {cause cause' : Cause} (hcause : cause' = cause.recast ρ) (span : Span) :
    Step.Follows ρ id (report cause span) (report cause' (span.recast ρ)) := by
  rw [hcause]
  exact follows_reportFault ⟨cause, span⟩

theorem follows_recordRegion (kind : RegionKind) (span : Span) :
    Step.Follows ρ id (recordRegion kind span) (recordRegion kind (span.recast ρ)) :=
  Step.Follows.modify fun _ _ hs => { hs with
    regions := by
      rw [hs.regions, Array.map_push]
      rfl }

/-- The table of symbols is changed in both states alike. -/
theorem follows_trySymbols {f k : SymbolTable → Bool × SymbolTable}
    (hf : ∀ {table table'}, table.Recasts ρ table' →
      (k table').1 = (f table).1 ∧ (f table).2.Recasts ρ (k table').2) :
    Step.Follows ρ id (trySymbols f) (trySymbols k) := by
  intro s t hs
  obtain ⟨hresult, hsymbols⟩ := hf hs.symbols
  exact ⟨hresult, { hs with symbols := hsymbols }⟩

theorem follows_noteVariable (token : Token) :
    Step.Follows ρ id (noteVariable token) (noteVariable (token.recast ρ)) :=
  Step.Follows.modify fun _ _ hs => { hs with
    symbols := hs.symbols.referenceOrCreate token (.variable _ .dynamic) }

theorem follows_noteLabel (token : Token) :
    Step.Follows ρ id (noteLabel token) (noteLabel (token.recast ρ)) :=
  Step.Follows.modify fun _ _ hs => { hs with
    symbols := hs.symbols.referenceOrCreate token (.label false) }

theorem follows_noteCalled (token : Token) :
    Step.Follows ρ id (noteCalled token) (noteCalled (token.recast ρ)) :=
  Step.Follows.modify fun _ _ hs => { hs with
    symbols := hs.symbols.referenceOrCreate token .subroutine }

theorem follows_noteIfKnown (kind : SymbolKind) (token : Token) :
    Step.Follows ρ id (noteIfKnown kind token) (noteIfKnown kind (token.recast ρ)) :=
  follows_trySymbols fun h => by
    obtain ⟨hfound, htable⟩ := h.reference? kind token
    exact ⟨congrArg Option.isSome hfound, htable⟩

end Parse

end BasicCheck
