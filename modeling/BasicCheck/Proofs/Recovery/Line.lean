import BasicCheck.Proofs.Progress.Finish

/-!
# Reading along a line

What is read of a statement stands on one line, however the reading ends. A parser that succeeds has
read no separator (`SameLine`); one that fails has read none either, and its fault stands at a token
between the one that came first and the one that comes next (`Stuck.here`). There is one exception: the
word behind a `->` is read before it is looked at, so that a separator there is lost
(`Stuck.member`). A parser that does either of it heeds lines (`Heeds`), and so does whatever is put
together of such parsers: **`Heeds.bind`**, **`Heeds.tryLoop`**.
-/

namespace BasicCheck.Grammar

open Parse

variable {α β : Type} {o s u v : State}

/-! ## 1. States of one line -/

/-- Nothing is added to the record of the run, and no region is recorded. -/
structure Quiet (s u : State) : Prop where
  past : Past s u
  recoveries : u.recoveries = s.recoveries
  begun : u.begun = s.begun
  regions : u.regions = s.regions

namespace Quiet

theorem refl (s : State) : Quiet s s := ⟨.refl s, rfl, rfl, rfl⟩

theorem trans (h : Quiet s u) (g : Quiet u v) : Quiet s v :=
  ⟨h.past.trans g.past, g.recoveries.trans h.recoveries, g.begun.trans h.begun,
    g.regions.trans h.regions⟩

theorem advance (s : State) : Quiet s s.advance.2 := by
  refine ⟨.advance s, ?_, ?_, ?_⟩ <;> unfold State.advance <;> split <;> try rfl
  · split <;> rfl
  · split <;> rfl
  · split <;> rfl

end Quiet

/-- No separator is read. -/
structure SameLine (s u : State) : Prop extends Quiet s u where
  line : ∀ read, s.rest.tokens = read ++ u.rest.tokens → ∀ t ∈ read, t.kind.isSeparator = false

namespace SameLine

theorem refl (s : State) : SameLine s s :=
  ⟨.refl s, fun read h => by
    rw [(Reads.refl s).eq h]
    exact List.forall_mem_nil _⟩

theorem trans (h : SameLine s u) (g : SameLine u v) : SameLine s v := by
  refine ⟨h.toQuiet.trans g.toQuiet, fun read htokens => ?_⟩
  obtain ⟨front, hfront⟩ := h.past.reads
  obtain ⟨back, hback⟩ := g.past.reads
  rw [(hfront.trans hback).eq htokens]
  exact List.forall_mem_append.mpr ⟨h.line front hfront.tokens, g.line back hback.tokens⟩

theorem advance (hk : s.current.kind.isSeparator = false) : SameLine s s.advance.2 :=
  ⟨.advance s, fun _ htokens => forall_mem_of_advance (P := (·.isSeparator = false)) hk htokens⟩

/-- Nothing is read at all. -/
theorem of_quiet (h : Quiet s u) (hrest : u.rest.tokens = s.rest.tokens) : SameLine s u :=
  ⟨h, fun read htokens => by
    rw [← hrest] at htokens
    have hnil : read = [] := List.append_cancel_right (htokens.symm.trans (List.nil_append _).symm)
    rw [hnil]
    exact List.forall_mem_nil _⟩

end SameLine

/-- How a parser that heeds lines fails. -/
inductive Stuck (s : State) : Fault → State → Prop where
  /-- At a token of the line, or at the one behind the last of them. -/
  | here {f : Fault} {m u : State} (front : SameLine s m) (back : SameLine m u)
      (span : f.span = m.current.span) : Stuck s f u
  /-- At a separator behind a `->`, which is read. -/
  | member {m : State} (front : SameLine s m) (sign : m.current.kind = .arrow)
      (separator : m.advance.2.current.kind.isSeparator = true) :
      Stuck s ⟨.expectedIdent, m.advance.2.current.span⟩ m.advance.2.advance.2

namespace Stuck

variable {f : Fault}

theorem after (h : SameLine o s) (g : Stuck s f u) : Stuck o f u := by
  cases g with
  | here front back span => exact .here (h.trans front) back span
  | member front sign separator => exact .member (h.trans front) sign separator

/-- The fault stands at a token that came next on the way. -/
theorem exists_between (h : Stuck s f u) : ∃ m, Quiet s m ∧ Quiet m u ∧ f.span = m.current.span := by
  cases h with
  | here front back span => exact ⟨_, front.toQuiet, back.toQuiet, span⟩
  | member front _ _ => exact ⟨_, front.toQuiet.trans (.advance _), .advance _, rfl⟩

theorem quiet (h : Stuck s f u) : Quiet s u := by
  obtain ⟨m, front, back, -⟩ := h.exists_between
  exact front.trans back

end Stuck

/-! ## 2. Judgements -/

theorem run_advance_bind {f : Token → Parser β} :
    (liftM advance >>= f : Parser β).run s = (f s.current).run s.advance.2 := by
  rw [← State.advance_fst]
  exact run_after rfl

theorem run_skip_bind {f : Unit → Parser β} :
    (discard (liftM advance : Parser Token) >>= f).run s = (f ()).run s.advance.2 :=
  run_bind (run_discard (run_lift rfl))

/-- A step stays on the line. -/
def Walks (s : State) (p : Step α) : Prop := s.Regular → SameLine s (p s).2

/-- How a parser that heeds lines ends. -/
def Ends (s : State) : Except Fault α × State → Prop
  | (.ok _, u) => SameLine s u
  | (.error f, u) => Stuck s f u

/-- From a state on, a parser heeds lines. -/
def Heeds (s : State) (p : Parser α) : Prop := s.Regular → Ends s (p.run s)

/-- A parser heeds lines wherever it starts. -/
def Careful (p : Parser α) : Prop := ∀ s, Heeds s p

theorem Ends.quiet {r : Except Fault α × State} (h : Ends s r) : Quiet s r.2 := by
  obtain ⟨_ | a, u⟩ := r
  · exact Stuck.quiet h
  · exact h.toQuiet

theorem Ends.after {r : Except Fault α × State} (h : SameLine o s) (g : Ends s r) : Ends o r := by
  obtain ⟨_ | a, u⟩ := r
  · exact Stuck.after h g
  · exact h.trans g

namespace Walks

variable {p : Step α} {f : α → Step β}

theorem pure (a : α) : Walks s (Pure.pure a) := fun _ => .refl s

theorem bind (hp : Walks s p) (hf : ∀ a u, SameLine s u → Walks u (f a)) : Walks s (p >>= f) := by
  intro hs
  have hline := hp hs
  exact hline.trans (hf (p s).1 (p s).2 hline (hline.past.regular hs))

/-- A step that only looks at the state. -/
theorem look {a : α} (hp : p s = (a, s)) (hf : Walks s (f a)) : Walks s (p >>= f) := by
  unfold Walks
  rw [step_bind hp]
  exact hf

theorem dropped (hp : Walks s p) : Walks s (discard p) := hp

end Walks

namespace Heeds

variable {p : Parser α} {f : α → Parser β}

theorem pure (a : α) : Heeds s (Pure.pure a) := fun _ => SameLine.refl s

/-- A parser that fails at the token that comes next. -/
theorem throw {fault : Fault} (h : fault.span = s.current.span) :
    Heeds s (MonadExcept.throw fault : Parser α) :=
  fun _ => Stuck.here (.refl s) (.refl s) h

/-- What is done behind a parser may look back to where that one started. -/
theorem bind_ends (hp : Heeds s p)
    (hf : ∀ a u, SameLine s u → u.Regular → Ends s ((f a).run u)) : Heeds s (p >>= f) := by
  intro hs
  have hline := hp hs
  rw [ExceptT.run_bind]
  rcases hr : p.run s with ⟨r, u⟩
  rw [hr] at hline
  rw [step_bind hr]
  cases r with
  | error fault => exact hline
  | ok a => exact hf a u hline (hline.past.regular hs)

/-- **A sequence of parsers** stays on the line if each of them does. -/
theorem bind (hp : Heeds s p) (hf : ∀ a u, SameLine s u → Heeds u (f a)) : Heeds s (p >>= f) :=
  hp.bind_ends fun a u hline hu => Ends.after hline (hf a u hline hu)

theorem given {a : α} (hf : Heeds s (f a)) : Heeds s (Pure.pure a >>= f) := by
  rw [pure_bind]
  exact hf

/-- Nothing happens behind a parser that fails at the token that comes next. -/
theorem fails {fault : Fault} (hp : p s = (.error fault, s)) (h : fault.span = s.current.span) :
    Heeds s (p >>= f) := by
  intro _
  show Ends s ((p >>= f) s)
  rw [run_bind_error hp]
  exact Stuck.here (.refl s) (.refl s) h

/-- A step as a parser. -/
theorem step {p : Step α} (hp : Walks s p) : Heeds s (liftM p) := hp

/-- A step in front of a parser. -/
theorem after {p : Step α} (hp : Walks s p) (hf : ∀ a u, SameLine s u → Heeds u (f a)) :
    Heeds s (liftM p >>= f) :=
  (step hp).bind hf

/-- A step in front of a parser that only looks at the state. -/
theorem look {p : Step α} {a : α} (hp : p s = (a, s)) (hf : Heeds s (f a)) :
    Heeds s (liftM p >>= f) := by
  have hrun : (liftM p >>= f : Parser β).run s = (f a).run s := run_after hp
  unfold Heeds
  rw [hrun]
  exact hf

theorem get {f : State → Parser β} (hf : Heeds s (f s)) : Heeds s (MonadState.get >>= f) :=
  look (p := MonadState.get) rfl hf

/-- A parser behind a step forward. -/
theorem read {f : Token → Parser β}
    (hf : s.Regular → Ends s ((f s.current).run s.advance.2)) :
    Heeds s (liftM Parse.advance >>= f) := by
  intro hs
  rw [run_advance_bind]
  exact hf hs

theorem map (g : α → β) (hp : Heeds s p) : Heeds s (g <$> p) := by
  rw [map_eq_pure_bind]
  exact hp.bind fun _ _ _ => pure _

theorem dropped (hp : Heeds s p) : Heeds s (discard p) := by
  unfold discard
  rw [map_const]
  exact map _ hp

/-- **A loop whose turns heed lines** does so itself, as long as it is not given up. -/
theorem tryLoop (body : α → Parser (Turn α β)) {a : α} {J : α → State → Prop}
    {Q : β → State → Prop} (hbody : ∀ a, Careful (body a)) (hstart : J a s)
    (hturn : ∀ a u, Past s u → J a u → Proceeds u (body a).run (Owes (Turns J Q u))) :
    Heeds s (Parse.tryLoop body a) := by
  intro hs
  have hruns : Runs (tryTurn body) a s ((Parse.tryLoop body a).run s).1
      ((Parse.tryLoop body a).run s).2 :=
    runs_loop (fun _ => Except.error standstill) hs hstart fun a u hu hJ =>
      proceeds_tryTurn (hturn a u hu hJ)
  -- on the turns: each but the last one stays on the line, and the last one ends as the loop does
  have hends {a : α} {r : Except Fault β} {s u : State} (h : Runs (tryTurn body) a s r u)
      (hs : s.Regular) : Ends s (r, u) := by
    induction h with
    | @done a r s u last _ =>
      have hlast := hbody a s hs
      rcases hr : (body a).run s with ⟨_ | (a' | b), v⟩ <;> rw [hr] at hlast
      all_goals
        have hturn : tryTurn body a s = _ := step_bind hr
        rw [last] at hturn
        cases hturn
      · exact hlast
      · exact hlast
    | @again a a' r s m u first past _ _ ih =>
      have hfirst := hbody a s hs
      rcases hr : (body a).run s with ⟨_ | (a' | b), v⟩ <;> rw [hr] at hfirst
      all_goals
        have hturn : tryTurn body a s = _ := step_bind hr
        rw [first] at hturn
        cases hturn
      exact Ends.after hfirst (ih (past.regular hs))
  exact hends hruns hs

end Heeds

/-! ## 3. Reading -/

theorem walks_advance (hk : s.current.kind.isSeparator = false) : Walks s advance :=
  fun _ => .advance hk

theorem heeds_advance (hk : s.current.kind.isSeparator = false) : Heeds s (liftM advance) :=
  Heeds.step (walks_advance hk)

theorem heeds_skip (hk : s.current.kind.isSeparator = false) :
    Heeds s (discard (liftM advance : Parser Token)) :=
  (heeds_advance hk).dropped

theorem walks_consume {kind : Kind} (hkind : kind.isSeparator = false) : Walks s (consume kind) := by
  refine Walks.look (sees_eq s kind) ?_
  split
  · rename_i hsees
    have hk : s.current.kind.isSeparator = false := by
      rw [eq_of_beq hsees]
      exact hkind
    exact (walks_advance hk).dropped.bind fun _ _ _ => .pure _
  · exact .pure _

theorem careful_failHere (cause : Cause) : Careful (failHere cause : Parser α) :=
  fun s => Heeds.look (current_eq s) (.throw rfl)

theorem careful_expect {kind : Kind} (hkind : kind.isSeparator = false) : Careful (expect kind) := by
  intro s
  refine Heeds.look (sees_eq s kind) ?_
  split
  · rename_i hsees
    exact heeds_advance (by rw [eq_of_beq hsees]; exact hkind)
  · exact Heeds.look (current_eq s) (careful_failHere _ s)

theorem heeds_expected {kind : Kind} (hkind : kind.isSeparator = false) :
    Heeds s (discard (expect kind)) :=
  (careful_expect hkind s).dropped

/-- What is done behind a token that has to be of a given kind. -/
theorem heeds_expected_bind {kind : Kind} {f : Unit → Parser α}
    (hf : s.current.kind = kind → s.Regular → Ends s ((f ()).run s.advance.2)) :
    Heeds s (discard (expect kind) >>= f) := by
  intro hs
  by_cases hk : s.current.kind = kind
  · have hread : discard (expect kind) s = (.ok (), s.advance.2) :=
      run_discard (expect_of_eq hk (Prod.eta _).symm)
    have hrun : (discard (expect kind) >>= f).run s = (f ()).run s.advance.2 := run_bind hread
    rw [hrun]
    exact hf hk hs
  · have hexpect : expect kind s = (.error
        ⟨.unexpectedToken (wording kind) s.current.describe, s.current.span⟩, s) := by
      unfold expect
      rw [run_after (sees_eq s kind), beq_eq_false_iff_ne.mpr hk]
      rfl
    have hfail : (discard (expect kind) >>= f) s = (.error
        ⟨.unexpectedToken (wording kind) s.current.describe, s.current.span⟩, s) := by
      unfold discard
      rw [map_const]
      show ((Function.const Token () <$> expect kind) >>= f) s = _
      rw [map_eq_pure_bind, bind_assoc]
      exact run_bind_error hexpect
    show Ends s ((discard (expect kind) >>= f) s)
    rw [hfail]
    exact Stuck.here (.refl s) (.refl s) rfl

theorem careful_expectIdent : Careful expectIdent := by
  intro s
  refine Heeds.look (sees_eq s .ident) ?_
  split
  · rename_i hsees
    exact heeds_advance (by rw [eq_of_beq hsees]; rfl)
  · exact careful_failHere _ s

/-! ## 4. Recording and noting -/

theorem walks_report (cause : Cause) (span : Span) : Walks s (report cause span) := fun hs =>
  .of_quiet ⟨(goes_report cause span hs).1, rfl, rfl, rfl⟩ rfl

theorem walks_reportAll (found : List (String × Span)) :
    Walks s (found.forM fun (label, span) => report (.undefinedLabel label) span) := by
  induction found generalizing s with
  | nil => exact .pure ()
  | cons first rest ih => exact (walks_report _ _).bind fun _ _ _ => ih

theorem walks_trySymbols {f : SymbolTable → Bool × SymbolTable}
    (hf : s.symbols.Follows (f s.symbols).2) : Walks s (trySymbols f) := fun _ =>
  .of_quiet ⟨.noted hf, rfl, rfl, rfl⟩ rfl

theorem walks_noteVariable (t : Token) : Walks s (noteVariable t) := fun _ =>
  .of_quiet ⟨past_noteVariable t, rfl, rfl, rfl⟩ rfl

theorem walks_noteLabel (t : Token) : Walks s (noteLabel t) := fun hs =>
  .of_quiet ⟨(goes_noteLabel t hs).1, rfl, rfl, rfl⟩ rfl

theorem walks_noteCalled (t : Token) : Walks s (noteCalled t) := fun hs =>
  .of_quiet ⟨(goes_noteCalled t hs).1, rfl, rfl, rfl⟩ rfl

theorem walks_noteIfKnown (kind : SymbolKind) (t : Token) : Walks s (noteIfKnown kind t) :=
  walks_trySymbols (SymbolTable.follows_reference? _ kind t)

/-! ## 5. Lists -/

/-- Items between commas. -/
theorem careful_commaList {item : Parser α} (hitem : Careful item)
    (hgoes : ∀ s, Grammar.Tries s item fun _ _ => True) : Careful (commaList item) := by
  intro s
  refine (hitem s).bind fun first u _ => ?_
  have hturn (items : Array α) : Careful (commaTurn item items) := fun s =>
    Heeds.after (walks_consume rfl) fun found u _ => by
      cases found with
      | true => exact (hitem u).bind fun _ _ _ => .pure _
      | false => exact .pure _
  refine (Heeds.tryLoop (commaTurn item) hturn
    (J := fun items v => Onward u v ∧ items.toList ≠ [] ∧ ∀ _ ∈ items.toList, True)
    ⟨.refl u, by simp, fun _ _ => trivial⟩ fun items v _ hJ =>
      Goes.proceeds (tries_commaTurn (P := fun _ _ _ => True) hgoes (fun _ _ _ => trivial) items hJ.1
        hJ.2.1 hJ.2.2)).bind fun items v _ => .pure _

/-! ## 6. Nesting -/

/-- A parser that is used only where fewer than `n` tokens are left. -/
def limited (n : Nat) (p : Parser α) : Parser α := do
  if (← get).rest.count < n then p else failHere .expectedExpr

theorem run_limited {n : Nat} (p : Parser α) (s : State) :
    (limited n p).run s = if s.rest.count < n then p.run s else (failHere .expectedExpr).run s := by
  have hrun : (limited n p).run s =
      (if s.rest.count < n then p else failHere .expectedExpr).run s := rfl
  rw [hrun]
  split <;> rfl

section Nesting

variable {p : Parser α} (layer : Parser α → Parser α)
  {P : State → Except Fault α × State → Prop}
  (hgoes : ∀ s, Goes s p.run fun _ _ => True) (hrun : ∀ {s}, s.Regular → p.run s = (layer p).run s)
  (hfail : ∀ s, s.Regular → P s ((failHere .expectedExpr : Parser α).run s))
  (hlayer : ∀ {n : Nat} {q : Parser α}, Concurs n q p → (∀ s, s.Regular → P s (q.run s)) →
    ∀ s, s.Regular → s.rest.count ≤ n →
      (layer q).run s = (layer p).run s ∧ P s ((layer q).run s))

include hgoes hrun hfail hlayer

/-- **A parser that is built over itself** ends as each layer of it does over parsers that end so. -/
theorem nested (hs : s.Regular) : P s (p.run s) := by
  -- by induction on the number of tokens left: a layer reads with itself only where there are fewer
  induction hcount : s.rest.count using Nat.strongRecOn generalizing s with
  | ind n ih =>
    have hwithin : Concurs n (limited n p) p := by
      intro u hu hlt
      rw [run_limited, if_pos hlt]
      exact ⟨rfl, (hgoes u hu).1⟩
    have hlimited (u : State) (hu : u.Regular) : P u ((limited n p).run u) := by
      rw [run_limited]
      split
      · rename_i hlt
        exact ih _ hlt hu rfl
      · exact hfail u hu
    obtain ⟨hsame, hholds⟩ := hlayer hwithin hlimited s hs (Nat.le_of_eq hcount)
    rw [hrun hs, ← hsame]
    exact hholds

end Nesting

end BasicCheck.Grammar
