import BasicCheck.Proofs.Print.Condition
import BasicCheck.Proofs.Token.Delimited

/-!
# Elements of dynamic arrays on a line

An element is written here as text: a name, one to three items of names and numbers with joiners between
them, and what the element is compared with (`ElementTest`). Its lexemes spell an expression that needs
no parentheses (`Expr.Flat`, `ElementTest.spells_left_append`). Whether the comparison is read is then
settled by the stretch from the closing `>` to the operator alone (`ElementTest.Closes`,
**`ElementTest.ofText_source`**): behind a blank every operator stands for itself, and directly behind
the `>` those do that make no longer sign with it, and `=`, whose longer sign `>=` the grammar takes
apart again (`ElementTest.closes_of_mem`).
-/

namespace BasicCheck

/-! ## 1. Items without parentheses -/

namespace Expr

/-- Expressions of variables and numbers whose operators take their operands without parentheses,
    none of them looser than a given level. -/
inductive Flat : Nat → Expr → Prop where
  | atom {level : Nat} {e : Expr} (he : e.Atom) (hlevel : level ≤ 8) : Flat level e
  | binary {level : Nat} {op : BinOp} {left right : Expr} (span : Span) (hlevel : level ≤ op.level)
      (hop : op ≠ .less) (hleft : Flat op.level left) (hright : Flat (op.level + 1) right) :
      Flat level (.binary op left right span)

/-- The expression with an operator and an operand written behind it. The operator takes all that
    binds at least as tight. -/
def joined : Expr → BinOp → Expr → Expr
  | .binary o left right span, op, operand =>
    if op.level ≤ o.level then .binary op (.binary o left right span) operand .blank
    else .binary o left (joined right op operand) span
  | e, op, operand => .binary op e operand .blank

theorem Atom.level_eq {e : Expr} (he : e.Atom) : e.level = 8 := by
  cases he <;> rfl

theorem Atom.printable {e : Expr} (he : e.Atom) : e.Printable := by
  cases he with
  | «variable» hrole => exact .variable _ hrole
  | number text span => exact .number text span

namespace Flat

variable {level : Nat} {e : Expr}

theorem le_level (h : e.Flat level) : level ≤ e.level := by
  cases h with
  | atom he hlevel => rwa [he.level_eq]
  | binary span hlevel hop hleft hright => exact hlevel

theorem printable (h : e.Flat level) : e.Printable := by
  induction h with
  | atom he hlevel => exact he.printable
  | binary span hlevel hop hleft hright ihLeft ihRight => exact .binary span hop ihLeft ihRight

/-- Where it is asked for on its level, no parentheses are needed. -/
theorem bracketed_words (h : e.Flat level) : bracketed level e e.words = e.words :=
  if_neg (Nat.not_lt.mpr h.le_level)

theorem words_binary {op : BinOp} {left right : Expr} (span : Span) (hleft : left.Flat op.level)
    (hright : right.Flat (op.level + 1)) :
    (Expr.binary op left right span).words = left.words ++ .op op :: right.words := by
  rw [words, hleft.bracketed_words, hright.bracketed_words]

/-- **What is written behind an expression without parentheses needs none either.** -/
theorem joined (h : e.Flat level) {op : BinOp} (hlevel : level ≤ op.level) (hop : op ≠ .less)
    {operand : Expr} (hoperand : operand.Atom) :
    (e.joined op operand).Flat level ∧
      (e.joined op operand).words = e.words ++ .op op :: operand.words := by
  have hright : operand.Flat (op.level + 1) :=
    .atom hoperand (Nat.le_trans (Nat.succ_le_succ op.level_le_six) (by decide))
  induction h with
  | @atom level e he hle =>
    have hleft : e.Flat op.level := .atom he (Nat.le_trans op.level_le_six (by decide))
    have hjoined : e.joined op operand = .binary op e operand .blank := by cases he <;> rfl
    rw [hjoined]
    exact ⟨.binary .blank hlevel hop hleft hright, words_binary .blank hleft hright⟩
  | @binary level o left right span hle ho hleft hinner ihLeft ih =>
    rw [Expr.joined]
    split
    · rename_i htight
      have hwhole : (Expr.binary o left right span).Flat op.level :=
        .binary span htight ho hleft hinner
      exact ⟨.binary .blank hlevel hop hwhole hright, words_binary .blank hwhole hright⟩
    · rename_i hloose
      obtain ⟨hflat, hwords⟩ := ih (Nat.lt_of_not_le hloose)
      refine ⟨.binary span hle ho hleft hflat, ?_⟩
      rw [words_binary span hleft hflat, words_binary span hleft hinner, hwords, List.append_assoc,
        List.cons_append]

end Flat

end Expr

/-! ## 2. Texts -/

/-- A text that is one lexeme, of one of some kinds. -/
structure Lexical (kinds : List Kind) where
  kind : Kind
  text : String
  isKind : kind ∈ kinds
  isLexeme : IsLexeme kind text

/-- A name or a number literal. -/
abbrev Operand := Lexical [.ident, .number, .hexNumber]

/-- What joins the operands of an item. -/
inductive Joiner where
  | colon | plus | minus | star | slash
  deriving DecidableEq, Repr

namespace Joiner

def char : Joiner → Char
  | colon => ':' | plus => '+' | minus => '-' | star => '*' | slash => '/'

def kind : Joiner → Kind
  | colon => .colon | plus => .plus | minus => .minus | star => .star | slash => .slash

/-- The operator that a joiner stands for. -/
def op : Joiner → BinOp
  | colon => .concat
  | plus => .arithmetic .add
  | minus => .arithmetic .sub
  | star => .arithmetic .mul
  | slash => .arithmetic .div

end Joiner

/-- An item of an index list: operands with joiners between them. -/
structure Item where
  first : Operand
  more : List (Joiner × Operand)

/-- The text of an item, without blanks. -/
def Item.chars (i : Item) : List Char :=
  i.first.text.toList ++ i.more.flatMap fun step => step.1.char :: step.2.text.toList

/-- An element of a dynamic array, and what it is compared with. -/
structure ElementTest where
  name : Lexical [.ident]
  items : List Item
  isSome : items ≠ []
  isFew : items.length ≤ 3
  right : Lexical [.ident, .number, .hexNumber, .string]

namespace ElementTest

/-- The items with commas between them. -/
def itemChars : List Item → List Char
  | [] => []
  | first :: rest => first.chars ++ rest.flatMap fun i => ',' :: i.chars

/-- The element up to its last item. -/
def front (c : ElementTest) : List Char := c.name.text.toList ++ '<' :: itemChars c.items

/-- The comparison with a given operator, some text between the closing `>` and the operator. -/
def chars (c : ElementTest) (between op : String) : List Char :=
  c.front ++ ('>' :: (between.toList ++ op.toList) ++ c.right.text.toList)

/-- A text of one line that decides by the comparison. -/
def source (c : ElementTest) (between op : String) : String :=
  "if " ++ String.ofList (c.chars between op) ++ " then null\n"

end ElementTest

/-! ## 3. Shapes -/

def Lexical.shape {kinds : List Kind} (x : Lexical kinds) : Kind × String := (x.kind, x.text)

def Joiner.shape (j : Joiner) : Kind × String := (j.kind, String.ofList [j.char])

def Item.shapes (i : Item) : List (Kind × String) :=
  i.first.shape :: i.more.flatMap fun step => [step.1.shape, step.2.shape]

def ElementTest.itemShapes : List Item → List (Kind × String)
  | [] => []
  | first :: rest => first.shapes ++ rest.flatMap fun i => (.comma, ",") :: i.shapes

def ElementTest.frontShapes (c : ElementTest) : List (Kind × String) :=
  c.name.shape :: (.less, "<") :: itemShapes c.items

/-- No sign comes next. -/
def Unsigned (rest : List Char) : Prop := ∀ c ∈ rest.head?, c ∉ Lexeme.signs.map Prod.fst

section Lexing

variable {kinds : List Kind} {rest : List Char}

theorem Lexical.isWordOrLiteral (hkinds : kinds.all Kind.isWordOrLiteral = true)
    (x : Lexical kinds) : x.kind.isWordOrLiteral = true :=
  List.all_eq_true.mp hkinds x.kind x.isKind

theorem Lexical.lexes (hkinds : kinds.all Kind.isWordOrLiteral = true) (x : Lexical kinds)
    (hrest : Delimited rest) : Lexes x.text.toList [x.shape] rest :=
  lexes_word x.isLexeme (x.isWordOrLiteral hkinds) hrest

/-- Words and literals start with no sign. -/
theorem Lexical.unsigned (hkinds : kinds.all Kind.isWordOrLiteral = true) (x : Lexical kinds)
    (rest : List Char) : Unsigned (x.text.toList ++ rest) := by
  obtain ⟨first, more, htext, hread⟩ := x.isLexeme
  intro c hc
  rw [htext] at hc
  cases hc
  exact Lexeme.notMem_signs (by rw [hread]; exact x.isWordOrLiteral hkinds)

theorem Unsigned.doubleSign? (h : Unsigned rest) (c : Char) : Lexeme.doubleSign? c rest = none := by
  cases rest with
  | nil => rfl
  | cons d more => exact Lexeme.doubleSign?_of_notMem (h d rfl)

/-- A sign is a lexeme where no other sign follows. -/
theorem Unsigned.lexes (h : Unsigned rest) {c : Char} (kind : Kind)
    (hsign : (c, kind) ∈ Lexeme.signs) (hkind : kind ≠ .semicolon) :
    Lexes [c] [(kind, String.ofList [c])] rest :=
  lexes_sign hsign hkind (h.doubleSign? c) fun _ hstar => h _ hstar (by decide)

/-- Stretches that are read wherever a delimiter follows are read one behind the other. -/
theorem lexes_flatMap {α : Type} {f : α → List Char} {g : α → List (Kind × String)}
    (hdelimited : ∀ a rest, Delimited (f a ++ rest))
    (hlexes : ∀ a rest, Delimited rest → Lexes (f a) (g a) rest) (hrest : Delimited rest)
    (as : List α) :
    Delimited (as.flatMap f ++ rest) ∧ Lexes (as.flatMap f) (as.flatMap g) rest := by
  induction as with
  | nil => exact ⟨hrest, .nil⟩
  | cons a as ih =>
    rw [List.flatMap_cons, List.flatMap_cons]
    refine ⟨?_, (hlexes a _ ih.1).append ih.2⟩
    rw [List.append_assoc]
    exact hdelimited a _

theorem Joiner.lexes (step : Joiner × Operand) (hrest : Delimited rest) :
    Lexes (step.1.char :: step.2.text.toList) [step.1.shape, step.2.shape] rest := by
  have hsign : (step.1.char, step.1.kind) ∈ Lexeme.signs ∧ step.1.kind ≠ .semicolon := by
    cases step.1 <;> decide
  exact ((step.2.unsigned rfl rest).lexes _ hsign.1 hsign.2).append (step.2.lexes rfl hrest)

theorem Item.lexes (i : Item) (hrest : Delimited rest) : Lexes i.chars i.shapes rest := by
  obtain ⟨hdelimited, hmore⟩ := lexes_flatMap
    (f := fun step : Joiner × Operand => step.1.char :: step.2.text.toList)
    (fun step rest => delimited_cons (by cases step.1 <;> decide) _)
    (fun step rest hrest => Joiner.lexes step hrest) hrest i.more
  exact (i.first.lexes rfl hdelimited).append hmore

theorem Item.unsigned (i : Item) (rest : List Char) : Unsigned (i.chars ++ rest) := by
  rw [Item.chars, List.append_assoc]
  exact i.first.unsigned rfl _

theorem ElementTest.lexes_items (items : List Item) (hrest : Delimited rest) :
    Lexes (itemChars items) (itemShapes items) rest := by
  cases items with
  | nil => exact .nil
  | cons first items =>
    obtain ⟨hdelimited, hmore⟩ := lexes_flatMap (f := fun i : Item => ',' :: i.chars)
      (g := fun i => (.comma, ",") :: i.shapes) (fun i rest => delimited_cons (by decide) _)
      (fun i rest hrest => ((i.unsigned rest).lexes .comma (by decide) nofun).append
        (i.lexes hrest)) hrest items
    exact (first.lexes hdelimited).append hmore

theorem ElementTest.lexes_front (c : ElementTest) (hrest : Delimited rest) :
    Lexes c.front c.frontShapes rest := by
  have hopen : Unsigned (itemChars c.items ++ rest) := by
    obtain ⟨first, items, hitems⟩ := List.exists_cons_of_ne_nil c.isSome
    rw [hitems, itemChars, List.append_assoc]
    exact first.unsigned _
  have hname : Delimited ('<' :: (itemChars c.items ++ rest)) := delimited_cons (by decide) _
  exact (c.name.lexes rfl hname).append
    ((hopen.lexes .less (by decide) nofun).append (lexes_items c.items hrest))

end Lexing

/-! ## 4. Words -/

/-- A token of a given shape. -/
def Token.ofShape (shape : Kind × String) : Token := ⟨shape.1, shape.2, .blank, false⟩

section Spelling

variable {ws ws' : List Word} {ts ts' : List Token}

theorem Spells.append (h : Spells ws ts) (h' : Spells ws' ts') :
    Spells (ws ++ ws') (ts ++ ts') := by
  induction h with
  | nil => exact h'
  | cons hw _ ih => exact .cons hw ih
  | closeEqual hkind htext _ ih => exact .closeEqual hkind htext ih

/-- Which words tokens spell is told by their shapes. -/
theorem Spells.of_shapes (h : Spells ws ts) (hshapes : ts'.map Token.shape = ts.map Token.shape) :
    Spells ws ts' := by
  induction h generalizing ts' with
  | nil =>
    rw [List.map_eq_nil_iff.mp hshapes]
    exact .nil
  | @cons w ws t ts hw hrest ih =>
    obtain ⟨t', ts', rfl, hshape, hmore⟩ := List.map_eq_cons_iff.mp hshapes
    obtain ⟨hkind, htext⟩ := Prod.mk.inj hshape
    refine .cons ?_ (ih hmore)
    cases w <;> simp only [Word.Spelled, hkind, htext] <;> exact hw
  | @closeEqual ws t ts hkind htext hrest ih =>
    obtain ⟨t', ts', rfl, hshape, hmore⟩ := List.map_eq_cons_iff.mp hshapes
    obtain ⟨hkind', htext'⟩ := Prod.mk.inj hshape
    exact .closeEqual (hkind'.trans hkind) (htext'.trans htext) (ih hmore)

end Spelling

/-- Which operand a token is by itself is told by its shape, up to spans. -/
theorem Token.exists_operand {t t' : Token} {e' : Expr} (hshape : t.shape = t'.shape)
    (h : t'.operand? = some e') :
    ∃ e, t.operand? = some e ∧ e.eraseSpans = e'.eraseSpans := by
  obtain ⟨hkind, htext⟩ := Prod.mk.inj hshape
  unfold operand? at h ⊢
  rw [hkind, htext]
  split at h <;> cases h <;> exact ⟨_, rfl, rfl⟩

/-- The expression that an operand stands for. -/
def Operand.expr (x : Operand) : Expr :=
  if x.kind = .ident then .variable ⟨x.text, .reference, .blank⟩ else .number x.text .blank

theorem Operand.spells (x : Operand) :
    x.expr.Atom ∧ Spells x.expr.words [Token.ofShape x.shape] := by
  unfold Operand.expr
  split
  · rename_i hident
    exact ⟨.variable rfl, .cons ⟨hident, rfl⟩ .nil⟩
  · rename_i hother
    have hnumber : x.kind = .number ∨ x.kind = .hexNumber := by
      have hmem := x.isKind
      simp only [List.mem_cons, List.not_mem_nil, or_false] at hmem
      exact hmem.resolve_left hother
    exact ⟨.number _ _, .cons ⟨hnumber, rfl⟩ .nil⟩

/-- The expression that an item stands for. -/
def Item.expr (i : Item) : Expr :=
  i.more.foldl (fun e step => e.joined step.1.op step.2.expr) i.first.expr

/-- An item needs no parentheses, and its lexemes spell it. -/
theorem Item.spells (i : Item) :
    i.expr.Flat 3 ∧ Spells i.expr.words (i.shapes.map Token.ofShape) := by
  -- on the operands behind the first, each of which is joined to all in front of it
  have hmore (more : List (Joiner × Operand)) : ∀ (e : Expr) (ts : List Token), e.Flat 3 →
      Spells e.words ts →
      (more.foldl (fun e step => e.joined step.1.op step.2.expr) e).Flat 3 ∧
        Spells (more.foldl (fun e step => e.joined step.1.op step.2.expr) e).words
          (ts ++ (more.flatMap fun step => [step.1.shape, step.2.shape]).map Token.ofShape) := by
    induction more with
    | nil =>
      intro e ts hflat hspells
      rw [List.flatMap_nil, List.map_nil, List.append_nil]
      exact ⟨hflat, hspells⟩
    | cons step more ih =>
      intro e ts hflat hspells
      obtain ⟨hatom, hoperand⟩ := step.2.spells
      have hop : 3 ≤ step.1.op.level ∧ step.1.op ≠ .less ∧
          BinOp.ofKind? step.1.kind = some step.1.op := by
        cases step.1 <;> decide
      obtain ⟨hjoined, hwords⟩ := hflat.joined hop.1 hop.2.1 hatom
      have hstep : Spells (e.joined step.1.op step.2.expr).words
          (ts ++ [Token.ofShape step.1.shape, Token.ofShape step.2.shape]) := by
        rw [hwords]
        exact hspells.append (.cons hop.2.2 hoperand)
      have hrest := ih _ _ hjoined hstep
      rwa [List.append_assoc] at hrest
  obtain ⟨hatom, hfirst⟩ := i.first.spells
  exact hmore i.more _ _ (.atom hatom (by decide)) hfirst

namespace ElementTest

/-- The items of a list are spelled by their lexemes and commas. -/
theorem spells_items (items : List Item) :
    Spells (commas (wordsOfAll 3 (items.map Item.expr)))
      ((itemShapes items).map Token.ofShape) := by
  have hword (i : Item) : bracketed 3 i.expr i.expr.words = i.expr.words :=
    i.spells.1.bracketed_words
  cases items with
  | nil => exact .nil
  | cons first items =>
    have hmore : Spells ((wordsOfAll 3 (items.map Item.expr)).flatMap (.comma :: ·))
        ((items.flatMap fun i => (.comma, ",") :: i.shapes).map Token.ofShape) := by
      induction items with
      | nil => exact .nil
      | cons i items ih =>
        rw [List.map_cons, wordsOfAll, hword, List.flatMap_cons, List.flatMap_cons, List.map_append]
        exact Spells.append (.cons rfl i.spells.2) ih
    rw [List.map_cons, wordsOfAll, hword, commas, itemShapes, List.map_append]
    exact first.spells.2.append hmore

/-- The element. -/
def left (c : ElementTest) : Expr :=
  .arrayIndex (.variable ⟨c.name.text, .reference, .blank⟩) (c.items.map Item.expr) .blank

theorem printable_left (c : ElementTest) : c.left.Printable := by
  refine .arrayIndex .blank trivial (.variable _ rfl) ?_ ?_ fun index hindex => ?_
  · exact fun h => c.isSome (List.map_eq_nil_iff.mp h)
  · rw [List.length_map]
    exact c.isFew
  · obtain ⟨i, -, rfl⟩ := List.mem_map.mp hindex
    exact i.spells.1.printable

/-! ## 5. Closing an index list -/

/-- Between an index list and what it is compared with, a text that starts with `>` is read as
    tokens that close the list and compare. -/
def Closes (text : List Char) (o : BinOp) : Prop :=
  ∃ shapes, (∀ rest, Unsigned rest → Lexes text shapes rest) ∧
    Spells [.closeAngle, .op o] (shapes.map Token.ofShape)

/-- Behind a blank every operator stands for itself. -/
theorem closes_blank {op : String} {kind : Kind} {o : BinOp} (ho : BinOp.ofKind? kind = some o)
    (hop : ∀ rest, Unsigned rest → Lexes op.toList [(kind, op)] rest) :
    Closes ('>' :: ' ' :: op.toList) o := by
  refine ⟨[(.greater, ">"), (kind, op)], fun rest hrest => ?_, .cons rfl (.cons ho .nil)⟩
  have hblank : Unsigned (' ' :: (op.toList ++ rest)) := by
    intro c hc
    cases hc
    decide
  have hclose : Lexes ['>'] [(.greater, ">")] (' ' :: (op.toList ++ rest)) :=
    hblank.lexes _ (by decide) nofun
  exact hclose.append ((lexes_blank rfl _).append (hop rest hrest))

/-- Where the `>` stands by itself, the operator may follow directly. -/
theorem closes_direct {op : String} {kind : Kind} {o : BinOp} (ho : BinOp.ofKind? kind = some o)
    (hop : ∀ rest, Unsigned rest → Lexes op.toList [(kind, op)] rest)
    (halone : ∀ rest, Lexeme.doubleSign? '>' (op.toList ++ rest) = none) :
    Closes ('>' :: op.toList) o := by
  refine ⟨[(.greater, ">"), (kind, op)], fun rest hrest => ?_, .cons rfl (.cons ho .nil)⟩
  have hclose : Lexes ['>'] [(.greater, ">")] (op.toList ++ rest) :=
    lexes_sign (by decide) nofun (halone rest) nofun
  exact hclose.append (hop rest hrest)

/-- **Some operators close an index list directly behind it as well as behind a blank**: those that
    make no longer sign together with the `>`, and the one whose longer sign the grammar takes
    apart. -/
theorem closes_of_mem {op : String} (hop : op ∈ ["=", "#", "<>", ">="]) :
    ∃ o : BinOp, o.level = 2 ∧ o ≠ .less ∧ Closes ('>' :: op.toList) o ∧
      Closes ('>' :: ' ' :: op.toList) o := by
  simp only [List.mem_cons, List.not_mem_nil, or_false] at hop
  rcases hop with rfl | rfl | rfl | rfl
  · have hsign (rest : List Char) (hrest : Unsigned rest) : Lexes "=".toList [(.equal, "=")] rest :=
      hrest.lexes _ (by decide) (by decide)
    have hglued : Closes ('>' :: "=".toList) .equal :=
      ⟨[(.greaterEqual, ">=")],
        fun rest _ => lexes_doubleSign (by decide) fun h => absurd h.2.1 (by decide),
        .closeEqual rfl rfl .nil⟩
    exact ⟨.equal, rfl, by decide, hglued, closes_blank rfl hsign⟩
  · have hsign (rest : List Char) (hrest : Unsigned rest) :
        Lexes "#".toList [(.notEqual, "#")] rest := hrest.lexes _ (by decide) (by decide)
    exact ⟨.compare .plain .ne, rfl, by decide, closes_direct rfl hsign fun _ => rfl,
      closes_blank rfl hsign⟩
  · have hsign (rest : List Char) (hrest : Unsigned rest) :
        Lexes "<>".toList [(.notEqual, "<>")] rest :=
      lexes_doubleSign (by decide) fun h => absurd h.1 (by decide)
    -- a `>` in front of `<>` is left alone
    have halone (rest : List Char) : Lexeme.doubleSign? '>' ("<>".toList ++ rest) = none := by
      rw [show "<>".toList ++ rest = '<' :: '>' :: rest from rfl, Lexeme.doubleSign?,
        if_pos ⟨rfl, rfl, rfl⟩]
    exact ⟨.compare .plain .ne, rfl, by decide, closes_direct rfl hsign halone, closes_blank rfl hsign⟩
  · have hsign (rest : List Char) (hrest : Unsigned rest) :
        Lexes ">=".toList [(.greaterEqual, ">=")] rest :=
      lexes_doubleSign (by decide) fun h => absurd h.2.1 (by decide)
    exact ⟨.compare .plain .ge, rfl, by decide, closes_direct rfl hsign fun _ => rfl,
      closes_blank rfl hsign⟩

/-! ## 6. Lines -/

variable {c : ElementTest} {between op : String} {o : BinOp}

/-- Behind the items the lexemes spell what follows there. -/
theorem spells_items_append (c : ElementTest) {ws : List Word} {shapes : List (Kind × String)}
    (h : Spells ws (shapes.map Token.ofShape)) :
    Spells (.name c.name.text :: .openAngle ::
        (commas (wordsOfAll 3 (c.items.map Item.expr)) ++ ws))
      ((c.frontShapes ++ shapes).map Token.ofShape) := by
  have hname : (Token.ofShape c.name.shape).kind = .ident := List.mem_singleton.mp c.name.isKind
  have hfront : Spells
      (.name c.name.text :: .openAngle :: commas (wordsOfAll 3 (c.items.map Item.expr)))
      (c.frontShapes.map Token.ofShape) :=
    .cons ⟨hname, rfl⟩ (.cons rfl (spells_items c.items))
  rw [List.map_append]
  exact hfront.append h

/-- Behind the element they do so as well. -/
theorem spells_left_append (c : ElementTest) {ws : List Word} {shapes : List (Kind × String)}
    (h : Spells (.closeAngle :: ws) (shapes.map Token.ofShape)) :
    Spells (c.left.words ++ ws) ((c.frontShapes ++ shapes).map Token.ofShape) := by
  simpa only [left, Expr.words, List.cons_append, List.nil_append, List.append_assoc] using
    c.spells_items_append h

/-- The lexemes of a line. -/
theorem lexes_line {shapes : List (Kind × String)}
    (h : ∀ rest, Unsigned rest → Lexes ('>' :: (between.toList ++ op.toList)) shapes rest) :
    Lexes (' ' :: (c.chars between op ++ " then null".toList))
      (c.frontShapes ++
        (shapes ++ [c.right.shape, (.keyword .THEN, "then"), (.keyword .NULL, "null")]))
      ['\n'] := by
  have hblank (rest : List Char) : Delimited (' ' :: rest) := delimited_cons (by decide) rest
  have hnull : Lexes "null".toList [(.keyword .NULL, "null")] ['\n'] :=
    lexes_word ⟨'n', _, rfl, by decide +kernel⟩ rfl (delimited_cons (by decide) _)
  have hthen : Lexes "then".toList [(.keyword .THEN, "then")] ([' '] ++ "null".toList ++ ['\n']) :=
    lexes_word ⟨'t', _, rfl, by decide +kernel⟩ rfl (hblank _)
  have hback := (lexes_blank (c := ' ') rfl _).append
    (hthen.append ((lexes_blank (c := ' ') rfl _).append hnull))
  have hright := (c.right.lexes rfl (hblank _)).append hback
  have hclose := (h _ (by rw [List.append_assoc]; exact c.right.unsigned rfl _)).append hright
  have hline := (lexes_blank (c := ' ') rfl _).append
    ((c.lexes_front (delimited_cons (by decide) _)).append hclose)
  have htext : " then null".toList = ' ' :: ("then".toList ++ ' ' :: "null".toList) := rfl
  rw [htext]
  simpa only [chars, List.nil_append, List.cons_append, List.append_assoc] using hline

/-- The tokens of a line, and that nothing is wrong with them. -/
theorem exists_tokens (c : ElementTest) (between op : String) {shapes : List (Kind × String)}
    (h : ∀ rest, Unsigned rest → Lexes ('>' :: (between.toList ++ op.toList)) shapes rest)
    (file : Nat) : ∃ key ts t back stop,
      (Lexed.ofText (c.source between op) file).primary =
          key :: (ts ++ t :: (back ++ [Token.endAt stop])) ∧
        (Lexed.ofText (c.source between op) file).faults = [] ∧ key.kind = .keyword .IF ∧
        ts.map Token.shape = c.frontShapes ++ shapes ∧ t.shape = c.right.shape ∧
        List.Forall₂ Mark.Spelled
          (.key .THEN :: ((Statement.action .null .blank).marks ++ [.newline])) back := by
  have hsource : (c.source between op).toList =
      "if".toList ++ (' ' :: (c.chars between op ++ " then null".toList) ++ ['\n']) := by
    rw [source, String.toList_append, String.toList_append, String.toList_ofList]
    simp
  have hif : IsLexeme (.keyword .IF) "if" := ⟨'i', ['f'], rfl, by decide +kernel⟩
  obtain ⟨tokens, stop, hprimary, hshapes, hfaults⟩ := Lexed.exists_primary hsource hif
    (delimited_cons (by decide) _) (lexes_line h) file
  -- the tokens, taken apart as their shapes are
  rw [List.append_assoc, List.append_assoc, ← List.append_assoc c.frontShapes] at hshapes
  obtain ⟨key, tokens, rfl, hkey, hshapes⟩ := List.map_eq_cons_iff.mp hshapes
  obtain ⟨ts, tokens, rfl, hts, hshapes⟩ := List.map_eq_append_iff.mp hshapes
  obtain ⟨t, back, rfl, ht, hback⟩ := List.map_eq_cons_iff.mp hshapes
  refine ⟨key, ts, t, back, stop, ?_, hfaults, congrArg Prod.fst hkey, hts, ht, ?_⟩
  · simpa only [List.cons_append, List.append_assoc] using hprimary
  obtain ⟨thenToken, back, rfl, hthen, hback⟩ := List.map_eq_cons_iff.mp hback
  obtain ⟨nullToken, back, rfl, hnull, hback⟩ := List.map_eq_cons_iff.mp hback
  obtain ⟨newline, back, rfl, hnewline, hback⟩ := List.map_eq_cons_iff.mp hback
  rw [List.map_eq_nil_iff.mp hback]
  exact .cons (congrArg Prod.fst hthen) (.cons (congrArg Prod.fst hnull)
    (.cons (congrArg Prod.fst hnewline) .nil))

/-- **A line is read back as the decision that it was written from**, if its operator closes the
    index list. -/
theorem ofText_source (c : ElementTest) (between op : String)
    (h : Closes ('>' :: (between.toList ++ op.toList)) o) (ho : o.level = 2) (hless : o ≠ .less)
    {e : Expr} (he : (Token.ofShape c.right.shape).operand? = some e) (file : Nat) :
    Block.eraseSpans (Procedure.ofText (c.source between op) file).body =
        [(Parse.lineDecision o c.left e (.action .null .blank)).eraseSpans] ∧
      (Procedure.ofText (c.source between op) file).diagnostics = [] := by
  obtain ⟨shapes, hlexes, hspells⟩ := h
  obtain ⟨key, ts, t, back, stop, hprimary, hfaults, hkey, hts, ht, hmarks⟩ :=
    c.exists_tokens between op hlexes file
  have hspelled : Spells (c.left.words ++ [.op o]) ts :=
    (c.spells_left_append hspells).of_shapes (by rw [hts, List.map_map]; exact (List.map_id' _).symm)
  obtain ⟨e', he', hsame⟩ := Token.exists_operand ht he
  have hread := Procedure.ofTokens_line c.printable_left (show 3 ≤ 8 by decide) ho hless
    (.null .blank) hkey hspelled he' hmarks (show (Token.endAt stop).kind = .endOfFile from rfl)
    (c.source between op) (Lexed.ofText (c.source between op) file).tokens file
  have hdecision : (Parse.lineDecision o c.left e' (.action .null .blank)).eraseSpans =
      (Parse.lineDecision o c.left e (.action .null .blank)).eraseSpans := by
    simp only [Parse.lineDecision, Statement.eraseSpans, Decision.eraseSpans, Expr.eraseSpans,
      hsame]
  rw [hdecision] at hread
  unfold Procedure.ofText
  dsimp only
  rw [hprimary, hfaults]
  exact hread

/-- What an element is compared with is an operand in one token. -/
theorem exists_operand_right (c : ElementTest) :
    ∃ e, (Token.ofShape c.right.shape).operand? = some e := by
  obtain ⟨kind, text, hkind, hlexeme⟩ := c.right
  simp only [List.mem_cons, List.not_mem_nil, or_false] at hkind
  rcases hkind with rfl | rfl | rfl | rfl <;> exact ⟨_, rfl⟩

end ElementTest

end BasicCheck
