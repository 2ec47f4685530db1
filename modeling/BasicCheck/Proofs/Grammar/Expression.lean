import BasicCheck.Proofs.Grammar.Goes
import BasicCheck.Proofs.Parse.Expression

/-!
# What reading an expression comes to

How each expression came about between two states (`Derives`): which words stand in it, from where to
where each of its parts was read, how its span was put together, and how many indexes it may have as
long as there is no error. Every part of the grammar of expressions gives expressions that came about
so (**`derives_expression`**, **`derives_target`**), and something was consumed for each of them
(`Derives.consumes`).
-/

namespace BasicCheck

/-- Another role for the base identifier leaves an expression where it is. -/
theorem Expr.span_setBaseRole (role : Role) (e : Expr) : (e.setBaseRole role).span = e.span := by
  cases e <;> rfl

namespace Grammar

open Parse

variable {α : Type} {o s u v : State}

/-! ## 1. Derivations -/

/-- An expression was read between two states. -/
inductive Derives : Expr → State → State → Prop where
  | within {e : Expr} {o s u v : State} (before : Onward o s) (inner : Derives e s u)
      (behind : Onward u v) : Derives e o v
  | variable {i : Ident} {s u : State} (names : Names i s u) : Derives (.variable i) s u
  | number {span : Span} {s u : State} (text : String) (finds : Finds span s u) :
      Derives (.number text span) s u
  | string {span : Span} {s u : State} (value : String) (finds : Finds span s u) :
      Derives (.string value span) s u
  | binary {left right : Expr} {s u : State} (op : BinOp) (hleft : Derives left s u)
      (hright : Derives right s u) : Derives (binaryOf op left right) s u
  | negate {span : Span} {inner : Expr} {s u : State} (sign : Finds span s u)
      (hinner : Derives inner s u) : Derives (.negate inner (span.join inner.span)) s u
  | arrayIndex {base : Expr} {indexes : List Expr} {s m u : State} (hbase : Derives base s m)
      (some : indexes ≠ []) (few : u.Clean → indexes.length ≤ 3)
      (hindexes : ∀ e ∈ indexes, Derives e m u) :
      Derives (.arrayIndex base indexes (base.span.join u.previous.span)) s u
  | substring {base : Expr} {indexes : List Expr} {s m u : State} (hbase : Derives base s m)
      (some : indexes ≠ []) (few : u.Clean → indexes.length ≤ 2)
      (hindexes : ∀ e ∈ indexes, Derives e m u) :
      Derives (.substring base indexes (base.span.join u.previous.span)) s u
  | matrixIndex {name : Ident} {row : Expr} {col : Option Expr} {s m u : State}
      (element : Element name s m) (hrow : Derives row m u)
      (hcol : ∀ e ∈ col, Derives e m u) :
      Derives (.matrixIndex name row col (name.span.join u.previous.span)) s u
  | call {name : Ident} {args : List Expr} {s m u : State} (called : Called name s m)
      (onward : Onward m u) (hargs : ∀ e ∈ args, Derives e m u) :
      Derives (.call name args (name.span.join u.previous.span)) s u
  | conditional {start : Span} {cond thenValue elseValue : Expr} {s m u : State}
      (finds : Finds start s m) (hcond : Derives cond m u) (hthen : Derives thenValue m u)
      (helse : Derives elseValue m u) :
      Derives (.conditional cond thenValue elseValue (start.join u.previous.span)) s u
  | property {object : Expr} {member : Ident} {s m u : State} (hobject : Derives object s m)
      (finds : Finds member.span m u) (role : member.role.isValue = false) :
      Derives (.property object member (object.span.join u.previous.span)) s u
  | method {object : Expr} {member : Ident} {args : List Expr} {s m u : State}
      (hobject : Derives object s m) (finds : Finds member.span m u)
      (role : member.role.isValue = false) (hargs : ∀ e ∈ args, Derives e m u) :
      Derives (.method object member args (object.span.join u.previous.span)) s u

namespace Derives

variable {e : Expr}

theorem before (h : Derives e s u) (g : Onward u v) : Derives e s v := .within (.refl s) h g

theorem after (h : Onward o s) (g : Derives e s u) : Derives e o u := .within h g (.refl u)

theorem onward (h : Derives e s u) : Onward s u := by
  induction h with
  | within before _ behind ih => exact before.trans (ih.trans behind)
  | «variable» names => exact names.onward
  | number _ finds | string _ finds | negate finds => exact finds.onward
  | binary _ _ _ ih => exact ih
  | arrayIndex _ hne _ _ ihbase ih | substring _ hne _ _ ihbase ih =>
    obtain ⟨index, hindex⟩ := List.exists_mem_of_ne_nil _ hne
    exact ihbase.trans (ih index hindex)
  | matrixIndex element _ _ ihrow => exact element.onward.trans ihrow
  | call called onward => exact called.onward.trans onward
  | conditional finds _ _ _ ihcond => exact finds.onward.trans ihcond
  | property _ finds _ ih | method _ finds _ _ ih => exact ih.trans finds.onward

/-- A word stands in every expression. -/
theorem exists_stands (h : Derives e s u) : ∃ span, Stands span s u := by
  induction h with
  | within before _ behind ih =>
    obtain ⟨span, hstands⟩ := ih
    exact ⟨span, (hstands.before behind).after before⟩
  | «variable» names => exact ⟨_, names.stands⟩
  | number _ finds | string _ finds | negate finds => exact ⟨_, finds.stands⟩
  | binary _ _ _ ih => exact ih
  | arrayIndex _ hne _ hindexes ihbase | substring _ hne _ hindexes ihbase =>
    obtain ⟨span, hstands⟩ := ihbase
    obtain ⟨index, hindex⟩ := List.exists_mem_of_ne_nil _ hne
    exact ⟨span, hstands.before (hindexes index hindex).onward⟩
  | matrixIndex element hrow => exact ⟨_, element.stands.before hrow.onward⟩
  | call called onward => exact ⟨_, called.finds.stands.before onward⟩
  | conditional finds hcond => exact ⟨_, finds.stands.before hcond.onward⟩
  | property _ finds _ ih | method _ finds _ _ ih =>
    obtain ⟨span, hstands⟩ := ih
    exact ⟨span, hstands.before finds.onward⟩

theorem past (h : Derives e s u) : Past s u := h.onward

/-- **Something is consumed for every expression.** -/
theorem consumes (h : Derives e s u) (hs : s.Regular) : Consumes s u := by
  obtain ⟨span, hstands⟩ := h.exists_stands
  exact hstands.consumes hs

theorem setBaseRole (role : Role) (h : Derives e s u) : Derives (e.setBaseRole role) s u := by
  induction h with
  | within before _ behind ih => exact .within before ih behind
  | «variable» names => exact .variable ⟨names.onward, names.stands, names.refers⟩
  | number text finds => exact .number text finds
  | string value finds => exact .string value finds
  | binary op hleft hright => exact .binary op hleft hright
  | negate sign hinner => exact .negate sign hinner
  | arrayIndex _ hne hfew hindexes ih =>
    rw [Expr.setBaseRole, ← Expr.span_setBaseRole role]
    exact .arrayIndex ih hne hfew hindexes
  | substring _ hne hfew hindexes ih =>
    rw [Expr.setBaseRole, ← Expr.span_setBaseRole role]
    exact .substring ih hne hfew hindexes
  | matrixIndex element hrow hcol =>
    exact .matrixIndex ⟨⟨element.onward, element.stands, element.refers⟩, element.element⟩ hrow hcol
  | call called onward hargs => exact .call called onward hargs
  | conditional finds hcond hthen helse => exact .conditional finds hcond hthen helse
  | property _ finds hvalue ih =>
    rw [Expr.setBaseRole, ← Expr.span_setBaseRole role]
    exact .property ih finds hvalue
  | method _ finds hvalue hargs ih =>
    rw [Expr.setBaseRole, ← Expr.span_setBaseRole role]
    exact .method ih finds hvalue hargs

end Derives

/-- The parts of an element of a matrix were read where it was. -/
theorem Derives.parts_matrixIndex {name : Ident} {row : Expr} {col : Option Expr} {span : Span}
    (h : Derives (.matrixIndex name row col span) s u) :
    Element name s u ∧ Derives row s u ∧ ∀ e ∈ col, Derives e s u := by
  generalize he : Expr.matrixIndex name row col span = e at h
  induction h with
  | within before _ behind ih =>
    obtain ⟨hname, hrow, hcol⟩ := ih he
    exact ⟨(hname.before behind).after before, .within before hrow behind,
      fun e he => .within before (hcol e he) behind⟩
  | matrixIndex element hrow hcol =>
    cases he
    have hfront := element.onward
    exact ⟨element.before hrow.onward, hrow.after hfront, fun e he => (hcol e he).after hfront⟩
  | _ => cases he

/-- A parser gives expressions that it has read. -/
def Parses (p : Parser Expr) : Prop := ∀ s, Tries s p fun e u => Derives e s u

/-! ## 2. The levels of binary operators -/

theorem tries_takeOperator : Tries s takeOperator fun _ _ => True := by
  refine Tries.after goes_advance fun token u _ _ => ?_
  split
  · exact Tries.pure trivial
  · exact Tries.throw rfl

/-- Reads one more operator and operand. -/
def chainTurn (operand : Parser Expr) (isOperator : Kind → Bool) (left : Expr) :
    Parser (Turn Expr Expr) := do
  if isOperator (← currentKind) then
    let op ← takeOperator
    let right ← operand
    return .again (binaryOf op left right)
  else return .done left

/-- A turn of a chain consumes something, whatever the operands before it are; if those were read, so
    is what it gives. -/
theorem tries_chainTurn {operand : Parser Expr} (ho : Parses operand) (isOperator : Kind → Bool)
    {left : Expr} {known : Prop} (hleft : known → Derives left o s) :
    Tries s (chainTurn operand isOperator left)
      (Turns (fun e u => known → Derives e o u) (fun e u => known → Derives e o u) s) := by
  refine Tries.look (currentKind_eq s) ?_
  split
  · refine tries_takeOperator.bind fun op u hu _ => ?_
    refine Tries.regular fun hregular => (ho u).bind fun right v hv hright => Tries.pure ⟨?_, ?_⟩
    · intro hknown
      have honward := (hleft hknown).onward.trans hu
      exact .binary op ((hleft hknown).before (hu.trans hv)) (.after honward hright)
    · exact Consumes.after hu (hright.consumes hregular)
  · exact Tries.pure hleft

theorem parses_chain {operand : Parser Expr} (ho : Parses operand) (isOperator : Kind → Bool) :
    Parses (chain operand isOperator) := by
  intro s
  refine (ho s).bind fun first u hu hfirst => ?_
  refine (Tries.tryLoop (chainTurn operand isOperator)
    (J := fun e v => Derives first s u → Derives e s v) id fun left v _ hleft =>
      tries_chainTurn ho isOperator hleft).mono fun e v _ h => h hfirst

/-- Expressions between commas. -/
theorem tries_expressions {item : Parser Expr} (hitem : Parses item) :
    Tries s (commaList item) fun es u => es ≠ [] ∧ ∀ e ∈ es, Derives e s u :=
  tries_commaList hitem fun before inner behind => .within before inner behind

section Levels

variable {primary : Parser Expr} (hp : Parses primary)

include hp

theorem parses_concatenations : Parses (concatenations primary) :=
  parses_chain (parses_chain (parses_chain (parses_chain hp _) _) _) _

theorem parses_expressionOver : Parses (expressionOver primary) :=
  parses_chain (parses_chain (parses_concatenations hp) _) _

/-! ## 3. Lists of expressions -/

theorem tries_argumentsOver :
    Tries s (argumentsOver primary) fun args u => ∀ e ∈ args, Derives e s u := by
  refine (tries_expected .leftParen).bind fun _ u1 h1 _ => Tries.look (sees_eq u1 .rightParen) ?_
  dsimp only
  split
  · refine Tries.given ?_
    exact (tries_expected .rightParen).bind fun _ _ _ _ => Tries.pure (List.forall_mem_nil _)
  · refine (tries_expressions (parses_expressionOver hp)).bind fun args u2 _ hargs => ?_
    refine (tries_expected .rightParen).bind fun _ u3 h3 _ => Tries.pure fun e he => ?_
    exact .within h1 (hargs.2 e he) h3

theorem tries_rowAndColumn (start : Span) :
    Tries s (rowAndColumn primary start) fun found u =>
      Derives found.1 s u ∧ ∀ e ∈ found.2, Derives e s u := by
  refine (tries_argumentsOver hp).bind fun args u1 _ hargs => ?_
  cases args with
  | nil => exact Tries.get (Tries.throw rfl)
  | cons row cols =>
    have hparts : Derives row s u1 ∧ ∀ e ∈ cols.head?, Derives e s u1 :=
      ⟨hargs row List.mem_cons_self, fun e he =>
        hargs e (List.mem_cons_of_mem _ (List.mem_of_mem_head? he))⟩
    dsimp only
    split
    · refine Tries.look (spanFrom_eq u1 start) ?_
      refine Tries.after (goes_report _ _) fun _ u2 h2 _ => Tries.pure ?_
      exact ⟨hparts.1.before h2, fun e he => (hparts.2 e he).before h2⟩
    · exact Tries.pure hparts

/-! ## 4. Index lists -/

/-- Indexes that are closed. -/
def Indexed (s : State) (found : Option (List Expr)) (u : State) : Prop :=
  ∀ indexes, found = some indexes → indexes ≠ [] ∧ ∀ e ∈ indexes, Derives e s u

omit hp in
theorem goes_splitGreaterEqual : Goes s splitGreaterEqual fun _ _ => True := by
  intro hs
  rcases splitGreaterEqual_cases s with ⟨hk, hsplit⟩ | hsame
  · have hword : s.current.kind.IsWord := hk.1 ▸ Kind.isWord_greaterEqual
    have hread : Reads s [s.current] (splitGreaterEqual s).2 := by
      rw [hsplit]
      exact ⟨(hs.rest_of_isWord hword).2, rfl, fun hnil => absurd hnil (List.cons_ne_nil _ _)⟩
    refine ⟨?_, trivial⟩
    rw [hsplit] at hread ⊢
    refine .of_symbols ⟨rfl, rfl, ⟨_, hread⟩, fun _ => ⟨hs.ended, fun hhalf => ⟨hhalf, ?_⟩⟩,
      List.prefix_refl _, .refl _, Nat.le_refl _⟩ rfl
    rw [← Option.some.inj hhalf]
    exact hk
  · rw [hsame]
    exact ⟨.refl s, trivial⟩

omit hp in
theorem goes_closeAngle : Goes s closeAngle fun _ _ => True := by
  refine (goes_consume .greater).bind fun closed u1 _ _ => ?_
  split
  · exact Goes.pure trivial
  · exact goes_splitGreaterEqual

theorem goes_closedIndexes? : Goes s (closedIndexes? primary) (Indexed s) := by
  refine goes_skip.bind fun _ u1 h1 _ => ?_
  refine Goes.bind (tries_expressions (parses_concatenations hp)) fun items u2 _ hitems => ?_
  cases items with
  | error fault => exact Goes.pure nofun
  | ok indexes =>
    refine goes_closeAngle.bind fun closed u3 h3 _ => ?_
    split
    · refine Goes.pure fun found hfound => ?_
      cases hfound
      exact ⟨hitems.1, fun e he => .within h1 (hitems.2 e he) h3⟩
    · exact Goes.pure nofun

omit hp in
/-- **An attempt that is taken back** leads behind the state from which it was made. -/
theorem Past.takeBack (h : Past s u) : Past s (u.takeBack s.snapshot s.toReading) where
  eof := h.eof
  depth := h.depth
  reads := ⟨[], rfl, rfl, fun _ => Or.inr rfl⟩
  regular hs := .of_whole (h.regular hs).ended rfl
  faults := by
    obtain ⟨more, hmore⟩ := h.faults
    have hback : (u.diagnostics.take s.diagnostics.size).toList =
        u.diagnostics.toList.take s.diagnostics.size := by
      simp
    have hfront : u.diagnostics.toList.take s.diagnostics.size = s.diagnostics.toList := by
      rw [← hmore, ← Array.length_toList, List.take_left]
    exact ⟨[], (List.append_nil _).trans (hback.trans hfront).symm⟩
  symbols := h.symbols.rollback
  begun := h.begun

/-- What is done with indexes that are closed. -/
def checkIndexes (base : Expr) (indexes : List Expr) : Step (Option (List Expr)) := do
  if indexes.length > 3 then report (.tooManyIndexes "array" 3) (← spanFrom base.span)
  return some indexes

omit hp in
/-- Too many indexes are an error. -/
theorem goes_checkIndexes (base : Expr) (indexes : List Expr) :
    Goes s (checkIndexes base indexes) fun found u =>
      found = some indexes ∧ (u.Clean → indexes.length ≤ 3) := by
  unfold checkIndexes
  dsimp only
  split
  · refine Goes.look (spanFrom_eq s base.span) ?_
    refine (goes_report _ _).bind fun _ u _ hreport => Goes.pure ⟨rfl, fun hclean => ?_⟩
    exact absurd hclean (hreport.2 rfl)
  · rename_i hfew
    exact Goes.pure ⟨rfl, fun _ => Nat.le_of_not_lt hfew⟩

omit hp in
/-- An attempt at indexes is kept if they are closed, else it is taken back. -/
theorem angleIndexes?_eq {base : Expr} {found : Option (List Expr)}
    (hr : closedIndexes? primary s = (found, u)) : angleIndexes? primary base s =
      found.elim (none, u.takeBack s.snapshot s.toReading) fun indexes =>
        checkIndexes base indexes u := by
  have hstart : angleIndexes? primary base s = _ := step_bind (p := MonadState.get) rfl
  rw [hstart, step_bind hr]
  cases found <;> rfl

/-- Indexes are more than three only with an error. -/
theorem goes_angleIndexes? (base : Expr) : Goes s (angleIndexes? primary base) fun found u =>
    Indexed s found u ∧ ∀ indexes, found = some indexes → u.Clean → indexes.length ≤ 3 := by
  intro hs
  obtain ⟨hpast, hclosed⟩ := goes_closedIndexes? hp hs
  rcases hr : closedIndexes? primary s with ⟨found, u⟩
  rw [hr] at hpast hclosed
  rw [angleIndexes?_eq hr]
  cases found with
  | none => exact ⟨hpast.takeBack hpast.toPast.takeBack, nofun, nofun⟩
  | some indexes =>
    obtain ⟨hne, hindexes⟩ := hclosed indexes rfl
    obtain ⟨hpast', hfound, hfew⟩ := goes_checkIndexes base indexes (hpast.regular hs)
    refine ⟨hpast.trans hpast', ?_, ?_⟩
    · intro indexes' h
      cases hfound.symm.trans h
      exact ⟨hne, fun e he => (hindexes e he).before hpast'⟩
    · intro indexes' h
      cases hfound.symm.trans h
      exact hfew

/-! ## 5. Operands -/

theorem tries_substringOf {base : Expr} {known : Prop} (hbase : known → Derives base o s) :
    Tries s (substringOf primary base) fun e u => (known → Derives e o u) ∧ Consumes s u := by
  refine Tries.regular fun hs => tries_skip.bind fun _ u1 h1 _ => ?_
  refine (tries_expressions (parses_expressionOver hp)).bind fun indexes u2 _ hindexes => ?_
  obtain ⟨hne, hderives⟩ := hindexes
  obtain ⟨index, hindex⟩ := List.exists_mem_of_ne_nil _ hne
  refine (tries_expected .rightBracket).bind fun _ u3 h3 _ => ?_
  have hall (e : Expr) (he : e ∈ indexes) : Derives e s u3 := .within h1 (hderives e he) h3
  have hconsumes : Consumes s u3 := (hall index hindex).consumes hs
  refine Tries.look (spanFrom_eq u3 base.span) ?_
  dsimp only
  split
  · refine Tries.after (goes_report _ _) fun _ u4 h4 hreport => ?_
    rw [← hreport.1.previous]
    refine Tries.pure ⟨fun hknown => ?_, hconsumes.before h4⟩
    exact .substring (hbase hknown) hne (fun hclean => absurd hclean (hreport.2 rfl))
      fun e he => (hall e he).before h4
  · rename_i hfew
    refine Tries.pure ⟨fun hknown => ?_, hconsumes⟩
    exact .substring (hbase hknown) hne (fun _ => Nat.le_of_not_lt hfew) hall

theorem tries_memberOf {object : Expr} {known : Prop} (hobject : known → Derives object o s) :
    Tries s (memberOf primary object) fun e u => (known → Derives e o u) ∧ Consumes s u := by
  refine Tries.regular fun hs => tries_skip.bind fun _ u1 h1 _ => ?_
  refine Tries.after goes_advance fun token u2 h2 hadvance => ?_
  obtain ⟨rfl, rfl⟩ := hadvance
  dsimp only
  split
  · rename_i hkind
    have hword := (Kind.isName_of_mayNameMember hkind).isWord
    have hfinds : Finds u1.current.span s u1.advance.2 := .after h1 (.of_next hword rfl)
    have hconsumes := hfinds.stands.consumes hs
    refine Tries.look (sees_eq _ .leftParen) ?_
    split
    · refine (tries_argumentsOver hp).bind fun args u3 h3 hargs => ?_
      refine Tries.look (spanFrom_eq u3 object.span) (Tries.pure ⟨fun hknown => ?_, ?_⟩)
      · refine .method (hobject hknown) (hfinds.before h3) rfl fun e he => ?_
        exact (hargs e he).after (h1.trans h2)
      · exact hconsumes.before h3
    · refine Tries.look (spanFrom_eq _ object.span) (Tries.pure ⟨fun hknown => ?_, hconsumes⟩)
      exact .property (hobject hknown) hfinds rfl
  · exact Tries.fails (p := throw _) rfl rfl

/-- Reads one more suffix of an operand. -/
def suffixTurn (primary : Parser Expr) (e : Expr) : Parser (Turn Expr Expr) := do
  match ← currentKind with
  | .less =>
    if e.isIndexable then
      match ← angleIndexes? primary e with
      | some indexes => return .again (.arrayIndex e indexes (← spanFrom e.span))
      | none => return .done e
    else return .done e
  | .leftBracket => return .again (← substringOf primary e)
  | .arrow => return .again (← memberOf primary e)
  | _ => return .done e

/-- A suffix consumes something, whatever it stands behind; if that was read, so is the whole. -/
theorem tries_suffixTurn {e : Expr} {known : Prop} (he : known → Derives e o s) :
    Tries s (suffixTurn primary e)
      (Turns (fun e u => known → Derives e o u) (fun e u => known → Derives e o u) s) := by
  refine Tries.look (currentKind_eq s) ?_
  split
  · split
    · refine Tries.regular fun hs => Tries.after (goes_angleIndexes? hp e) fun found v hv h => ?_
      cases found with
      | none => exact Tries.pure fun hknown => (he hknown).before hv
      | some indexes =>
        obtain ⟨hne, hindexes⟩ := h.1 indexes rfl
        obtain ⟨index, hindex⟩ := List.exists_mem_of_ne_nil _ hne
        refine Tries.look (spanFrom_eq v e.span) (Tries.pure ⟨fun hknown => ?_, ?_⟩)
        · exact .arrayIndex (he hknown) hne (h.2 indexes rfl) hindexes
        · exact (hindexes index hindex).consumes hs
    · exact Tries.pure he
  · exact (tries_substringOf hp he).bind fun _ _ _ h => Tries.pure h
  · exact (tries_memberOf hp he).bind fun _ _ _ h => Tries.pure h
  · exact Tries.pure he

theorem tries_suffixes {base : Expr} (hbase : Derives base o s) :
    Tries s (suffixes primary base) fun e u => Derives e o u :=
  (Tries.tryLoop (suffixTurn primary) (J := fun e u => Derives base o s → Derives e o u) id
    fun _ _ _ he => tries_suffixTurn hp he).mono fun _ _ _ h => h hbase

theorem tries_callOf (name : Ident) (hname : Called name o s) :
    Tries s (callOf primary name) fun e u => Derives e o u := by
  refine (tries_argumentsOver hp).bind fun args u1 h1 hargs => ?_
  exact Tries.look (spanFrom_eq u1 name.span) (Tries.pure (.call hname h1 hargs))

/-- A name, which comes next. -/
theorem tries_named (hk : s.current.kind = .ident) :
    Tries s (named primary) fun e u => Derives e s u := by
  have hword : s.current.kind.IsWord := by
    rw [hk]
    decide
  refine Tries.after goes_advance fun token u1 h1 hread => ?_
  obtain ⟨rfl, rfl⟩ := hread
  refine Tries.look (sees_eq _ .leftParen) ?_
  -- a parenthesis follows: an element of a matrix or a call; otherwise an equate or a variable
  split
  · refine Tries.get ?_
    rw [s.symbols_advance]
    split
    · rename_i hmatrix
      have hthere : s.advance.2.symbols.contains .variable s.current.text = true := by
        rw [s.symbols_advance]
        exact SymbolTable.contains_of_isMatrix hmatrix
      refine Tries.after (goes_noteVariable (Or.inr (Or.inl hthere))) fun _ u2 h2 hnoted => ?_
      have hname : Element ⟨s.current.text, .reference, s.current.span⟩ s u2 :=
        ⟨.of_finds ((Meets.of_next hword rfl).before h2) fun hs => hnoted.2 (h1.symbols hs).1,
          (Meets.of_next hword ⟨rfl, rfl, hmatrix⟩).before h2⟩
      refine (tries_rowAndColumn hp _).bind fun found u3 _ hfound => ?_
      obtain ⟨row, col⟩ := found
      exact Tries.look (spanFrom_eq u3 _) (Tries.pure (.matrixIndex hname hfound.1 hfound.2))
    · rename_i hmatrix
      have hname : Called ⟨s.current.text, .functionName, s.current.span⟩ s s.advance.2 :=
        .of_next hword ⟨rfl, rfl, fun _ => ⟨rfl, eq_false_of_ne_true hmatrix⟩⟩
      refine Tries.after (goes_noteIfKnown .function _) fun known u2 h2 _ => ?_
      dsimp only
      split
      · refine Tries.after (goes_report _ _) fun _ u3 h3 _ => ?_
        exact tries_callOf hp _ (hname.before (h2.trans h3))
      · exact tries_callOf hp _ (hname.before h2)
  · have hfinds : Finds s.current.span s s.advance.2 := .of_next hword rfl
    refine Tries.after (goes_noteEquate _) fun known u2 h2 hknown => ?_
    dsimp only
    split
    · rename_i hequate
      refine Tries.pure (.variable (.of_finds (hfinds.before h2) fun hs => ?_))
      exact hknown.1 hequate (h1.symbols hs).1
    · rename_i hno
      have hfree := hknown.2 (eq_false_of_ne_true hno)
      refine Tries.after (goes_noteVariable (Or.inl hfree)) fun _ u3 h3 hnoted => Tries.pure ?_
      refine .variable (.of_finds (hfinds.before (h2.trans h3)) fun hs => hnoted.2 ?_)
      exact ((h1.trans h2).symbols hs).1

/-- A choice, whose keyword comes next. -/
theorem tries_conditional (hword : s.current.kind.IsWord) :
    Tries s (conditional primary) fun e u => Derives e s u := by
  have hp' := parses_expressionOver hp
  refine Tries.after goes_advance fun token u1 _ hread => ?_
  obtain ⟨rfl, rfl⟩ := hread
  refine (hp' _).bind fun cond u2 h2 hcond => ?_
  refine (tries_expected _).bind fun _ u3 h3 _ => ?_
  refine (hp' u3).bind fun thenValue u4 h4 hthen => ?_
  refine (tries_expected _).bind fun _ u5 h5 _ => ?_
  refine (hp' u5).bind fun elseValue u6 h6 helse => ?_
  refine Tries.look (spanFrom_eq u6 _) (Tries.pure ?_)
  have hfront := h2.trans h3
  have hback := h5.trans h6
  exact .conditional (.of_next hword rfl) (hcond.before ((h3.trans h4).trans hback))
    (.within hfront hthen hback) (.after (hfront.trans (h4.trans h5)) helse)

/-- An operand that opens with a keyword, which comes next. -/
theorem tries_keywordOperand {word : Keyword} (hk : s.current.kind = .keyword word) :
    Tries s (keywordOperand primary word) fun e u => Derives e s u := by
  have hword : s.current.kind.IsWord := by
    rw [hk]
    exact Kind.isWord_keyword word
  have hnoIdent : s.current.kind ≠ .ident := by
    rw [hk]
    exact nofun
  refine Tries.look (current_eq s) (Tries.look (looks_seesFunctionKeyword s) ?_)
  split
  · refine tries_skip.bind fun _ u1 _ hread => ?_
    refine (Tries.step (goes_noteIfKnown .function _)).dropped.bind fun _ u2 h2 _ => ?_
    subst hread
    have hname : Called ⟨s.current.text, .functionName, s.current.span⟩ s s.advance.2 :=
      .of_next hword ⟨rfl, rfl, fun hident => absurd hident hnoIdent⟩
    exact tries_callOf hp _ (hname.before h2)
  · split
    · exact tries_conditional hp hword
    · split
      · refine Tries.regular fun hs => tries_skip.bind fun _ u1 h1 hread => ?_
        have hapart : NamedApart u1.last.toList s.current.folded := by
          rw [hread, hs.advance_of_isWord hword]
          exact Or.inl ⟨s.current, List.mem_singleton_self _, rfl, Or.inl (by rw [hk]; rfl)⟩
        refine Tries.after (goes_noteVariable (Or.inr (Or.inr hapart))) fun _ u2 h2 hnoted =>
          Tries.pure (.variable (.of_finds (Meets.before ?_ h2) fun hwhole => hnoted.2 ?_))
        · rw [hread]
          exact .of_next hword rfl
        · exact (h1.symbols hwhole).1
      · exact tries_failHere rfl

/-- **One layer of operands** reads what it gives if the operands within it do. -/
theorem parses_primaryLayer : Parses (primaryLayer primary) := by
  intro s
  have hread {kind : Kind} (hk : s.current.kind = kind) (hword : kind.IsWord) :
      Tries s (discard (liftM advance : Parser Token)) fun _ u => Finds s.current.span s u :=
    tries_skip.mono fun _ u _ hread => by
      rw [hread]
      exact .of_next (hk ▸ hword) rfl
  refine Tries.look (current_eq s) ?_
  split
  · rename_i hk
    exact (hread hk (by decide)).bind fun _ u1 _ h => tries_suffixes hp (.number _ h)
  · rename_i hk
    exact (hread hk (by decide)).bind fun _ u1 _ h => tries_suffixes hp (.number _ h)
  · rename_i hk
    exact (hread hk (by decide)).bind fun _ u1 _ h => tries_suffixes hp (.string _ h)
  · refine tries_skip.bind fun _ u1 h1 _ => ?_
    refine (parses_expressionOver hp u1).bind fun inner u2 _ hinner => ?_
    refine (tries_expected .rightParen).bind fun _ u3 h3 _ => ?_
    exact tries_suffixes hp (.within h1 hinner h3)
  · rename_i hk
    refine (hread hk (by decide)).bind fun _ u1 h1 hsign => (hp u1).bind fun inner u2 h2 hinner => ?_
    exact Tries.pure (.negate (hsign.before h2) (hinner.after h1))
  · exact tries_skip.bind fun _ u1 h1 _ => (hp u1).mono fun e u _ he => he.after h1
  · rename_i hk
    have hword : s.current.kind.IsWord := hk ▸ (by decide)
    refine tries_skip.bind fun _ u1 _ hread => Tries.look (sees_eq u1 .leftParen) ?_
    split
    · have hat : Called ⟨"@", .functionName, s.current.span⟩ s u1 := by
        rw [hread]
        exact .of_next hword ⟨rfl, rfl, fun hident => absurd (hk.symm.trans hident) nofun⟩
      exact (tries_callOf hp _ hat).bind fun base _ _ h => tries_suffixes hp h
    · exact tries_failHere rfl
  · rename_i hk
    have hword : s.current.kind.IsWord := hk ▸ (by decide)
    refine Tries.regular fun hs => tries_skip.bind fun _ u1 h1 hread => ?_
    have hsystem : Finds s.current.span s u1 := by
      rw [hread]
      exact .of_next hword rfl
    have hapart : NamedApart u1.last.toList s.current.folded := by
      rw [hread, hs.advance_of_isWord hword]
      exact Or.inl ⟨s.current, List.mem_singleton_self _, rfl, Or.inr hk⟩
    refine Tries.after (goes_noteVariable (Or.inr (Or.inr hapart))) fun _ u2 h2 hnoted => ?_
    refine tries_suffixes hp (.variable (.of_finds (hsystem.before h2) fun hwhole => ?_))
    exact hnoted.2 (h1.symbols hwhole).1
  · rename_i hk
    exact (tries_named hp hk).bind fun base _ _ h => tries_suffixes hp h
  · rename_i hk
    exact (tries_keywordOperand hp hk).bind fun base _ _ h => tries_suffixes hp h
  · exact Tries.throw rfl

end Levels

/-! ## 6. The grammar of expressions -/

theorem parses_nestUpTo (depth : Nat) : Parses (nestUpTo primaryLayer depth) :=
  of_layers Parses primaryLayer (fun _ => Tries.throw rfl) (fun _ => parses_primaryLayer) depth

/-- **An operand** is read. -/
theorem derives_primary : Parses primary := fun s => Tries.get (parses_nestUpTo _ s)

/-- **An expression** is read. -/
theorem derives_expression : Parses expression := parses_expressionOver derives_primary

theorem tries_arguments : Tries s arguments fun args u => ∀ e ∈ args, Derives e s u :=
  tries_argumentsOver derives_primary

/-- **What can be assigned to** is read. -/
theorem derives_target : Parses target := by
  intro s
  refine Tries.look (current_eq s) ((derives_primary s).bind fun e u1 _ he => ?_)
  split
  · exact Tries.pure he
  · split
    · exact Tries.pure (he.setBaseRole .assignment)
    · exact Tries.throw rfl

end Grammar

end BasicCheck
