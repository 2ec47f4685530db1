import BasicCheck.Builtin
import BasicCheck.Expr
import BasicCheck.Token

/-!
# Expressions in words

How expressions are written. An expression has a level: the looser its operator binds, the lower it is
(`Expr.level`). An operand is put in parentheses exactly if its level is too low for where it stands
(`bracketed`), which gives the words of an expression (`Expr.words`). Tokens spell words one by one,
except that a closing `>` and an operator `=` behind it may be one token `>=` (`Spells`).
-/

namespace BasicCheck

/-! ## 1. Levels -/

/-- How tight an operator binds, from logic to powers. -/
def BinOp.level : BinOp → Nat
  | and | or | matching => 1
  | compare _ _ => 2
  | concat | multiConcat => 3
  | arithmetic .add | arithmetic .sub | multiArithmetic .add | multiArithmetic .sub => 4
  | arithmetic .mul | arithmetic .div | multiArithmetic .mul | multiArithmetic .div => 5
  | power => 6

/-- The operator that `<` stands for; behind a name it cannot be told from an index list. -/
abbrev BinOp.less : BinOp := .compare .plain .lt

/-- The operator that `=` stands for. -/
abbrev BinOp.equal : BinOp := .compare .plain .eq

theorem BinOp.one_le_level (op : BinOp) : 1 ≤ op.level := by
  unfold level
  split <;> decide

theorem BinOp.level_le_six (op : BinOp) : op.level ≤ 6 := by
  unfold level
  split <;> decide

namespace Expr

/-- The level of an expression: that of its operator, then negations, then everything else. -/
def level : Expr → Nat
  | binary op _ _ _ => op.level
  | negate _ _ => 7
  | _ => 8

/-! ## 2. Expressions that are written -/

/-- Variables and calls, which index lists may follow. -/
def IsNamed : Expr → Prop
  | .variable _ | call _ _ _ => True
  | _ => False

/-- Expressions of literals, variables, negations, calls of intrinsic functions, index lists of up to
    three items, substrings of up to two, and all operators but `<`. -/
inductive Printable : Expr → Prop where
  | number (text : String) (span : Span) : Printable (.number text span)
  | variable (ident : Ident) (hrole : ident.role = .reference) : Printable (.variable ident)
  | negate {inner : Expr} (span : Span) (hinner : Printable inner) : Printable (.negate inner span)
  | binary {op : BinOp} {left right : Expr} (span : Span) (hop : op ≠ .less)
      (hleft : Printable left) (hright : Printable right) : Printable (.binary op left right span)
  | call {name : Ident} {args : List Expr} (span : Span) (hrole : name.role = .functionName)
      (hname : Builtin.isIntrinsic name.name = true) (hargs : ∀ arg ∈ args, Printable arg) :
      Printable (.call name args span)
  | arrayIndex {base : Expr} {indexes : List Expr} (span : Span) (hnamed : base.IsNamed)
      (hbase : Printable base) (hsome : indexes ≠ []) (hfew : indexes.length ≤ 3)
      (hindexes : ∀ index ∈ indexes, Printable index) : Printable (.arrayIndex base indexes span)
  | substring {base : Expr} {indexes : List Expr} (span : Span) (hbase : Printable base)
      (hsome : indexes ≠ []) (hfew : indexes.length ≤ 2)
      (hindexes : ∀ index ∈ indexes, Printable index) : Printable (.substring base indexes span)

mutual

/-- The expression with blank spans. -/
def eraseSpans : Expr → Expr
  | .variable ident => .variable { ident with span := .blank }
  | number text _ => .number text .blank
  | string value _ => .string value .blank
  | binary op left right _ => .binary op left.eraseSpans right.eraseSpans .blank
  | negate inner _ => .negate inner.eraseSpans .blank
  | arrayIndex base indexes _ => .arrayIndex base.eraseSpans (eraseAllSpans indexes) .blank
  | substring base indexes _ => .substring base.eraseSpans (eraseAllSpans indexes) .blank
  | matrixIndex name row none _ =>
    .matrixIndex { name with span := .blank } row.eraseSpans none .blank
  | matrixIndex name row (some col) _ =>
    .matrixIndex { name with span := .blank } row.eraseSpans (some col.eraseSpans) .blank
  | call name args _ => .call { name with span := .blank } (eraseAllSpans args) .blank
  | conditional cond thenValue elseValue _ =>
    .conditional cond.eraseSpans thenValue.eraseSpans elseValue.eraseSpans .blank
  | property object member _ => .property object.eraseSpans { member with span := .blank } .blank
  | method object member args _ =>
    .method object.eraseSpans { member with span := .blank } (eraseAllSpans args) .blank

/-- The expressions with blank spans. -/
def eraseAllSpans : List Expr → List Expr
  | [] => []
  | e :: rest => e.eraseSpans :: eraseAllSpans rest

end

theorem eraseAllSpans_eq_map (es : List Expr) : eraseAllSpans es = es.map eraseSpans := by
  induction es with
  | nil => rfl
  | cons e rest ih => rw [eraseAllSpans, ih, List.map_cons]

end Expr

/-! ## 3. Words -/

/-- What expressions are written with. -/
inductive Word where
  | name (text : String)
  | number (text : String)
  | op (o : BinOp)
  /-- A minus in front of an operand. -/
  | negative
  | leftParen | rightParen
  | leftBracket | rightBracket
  /-- The `<` and the `>` of an index list. -/
  | openAngle | closeAngle
  | comma

/-- The words of an expression where a level is asked for. -/
def bracketed (level : Nat) (e : Expr) (words : List Word) : List Word :=
  if e.level < level then .leftParen :: (words ++ [.rightParen]) else words

theorem bracketed_of_lt {level : Nat} {e : Expr} (h : e.level < level) (words : List Word) :
    bracketed level e words = .leftParen :: (words ++ [.rightParen]) := if_pos h

theorem bracketed_of_le {level : Nat} {e : Expr} (h : level ≤ e.level) (words : List Word) :
    bracketed level e words = words := if_neg (Nat.not_lt_of_le h)

/-- Items with commas in front of all but the first. -/
def commas : List (List Word) → List Word
  | [] => []
  | first :: rest => first ++ rest.flatMap (.comma :: ·)

mutual

/-- The words of an expression. The forms that are not written have none. -/
def Expr.words : Expr → List Word
  | .variable ident => [.name ident.name]
  | .number text _ => [.number text]
  | .negate inner _ => .negative :: bracketed 7 inner inner.words
  | .binary op left right _ =>
    bracketed op.level left left.words ++ .op op :: bracketed (op.level + 1) right right.words
  | .call name args _ => .name name.name :: .leftParen :: (commas (wordsOfAll 1 args) ++ [.rightParen])
  | .arrayIndex base indexes _ =>
    base.words ++ .openAngle :: (commas (wordsOfAll 3 indexes) ++ [.closeAngle])
  | .substring base indexes _ =>
    bracketed 8 base base.words ++ .leftBracket :: (commas (wordsOfAll 1 indexes) ++ [.rightBracket])
  | _ => []

/-- The words of each item where a level is asked for. -/
def wordsOfAll (level : Nat) : List Expr → List (List Word)
  | [] => []
  | e :: rest => bracketed level e e.words :: wordsOfAll level rest

end

theorem wordsOfAll_eq_map (level : Nat) (es : List Expr) :
    wordsOfAll level es = es.map fun e => bracketed level e e.words := by
  induction es with
  | nil => rfl
  | cons e rest ih => rw [wordsOfAll, ih, List.map_cons]

/-- Words that expressions start with. -/
def Word.Starts : Word → Prop
  | name _ | number _ | negative | leftParen => True
  | _ => False

/-- Some words of which the first one starts an expression. -/
def StartsWell (ws : List Word) : Prop := ∃ w rest, ws = w :: rest ∧ w.Starts

theorem StartsWell.append {ws : List Word} (h : StartsWell ws) (more : List Word) :
    StartsWell (ws ++ more) := by
  obtain ⟨w, rest, rfl, hw⟩ := h
  exact ⟨w, rest ++ more, rfl, hw⟩

theorem StartsWell.bracketed {e : Expr} {ws : List Word} (h : StartsWell ws) (level : Nat) :
    StartsWell (bracketed level e ws) := by
  unfold BasicCheck.bracketed
  split
  · exact ⟨.leftParen, ws ++ [.rightParen], rfl, trivial⟩
  · exact h

theorem Expr.Printable.startsWell {e : Expr} (h : e.Printable) : StartsWell e.words := by
  induction h with
  | number text span => exact ⟨.number text, [], rfl, trivial⟩
  | «variable» ident hrole => exact ⟨.name ident.name, [], rfl, trivial⟩
  | negate span hinner ih => exact ⟨.negative, _, rfl, trivial⟩
  | binary span hop hleft hright ihLeft ihRight => exact (ihLeft.bracketed _).append _
  | call span hrole hname hargs ih => exact ⟨.name _, _, rfl, trivial⟩
  | arrayIndex span hnamed hbase hsome hfew hindexes ihBase ih => exact ihBase.append _
  | substring span hbase hsome hfew hindexes ihBase ih => exact (ihBase.bracketed _).append _

/-! ## 4. Tokens -/

/-- A token that spells a word. -/
def Word.Spelled : Word → Token → Prop
  | name text, t => t.kind = .ident ∧ t.text = text
  | number text, t => (t.kind = .number ∨ t.kind = .hexNumber) ∧ t.text = text
  | op o, t => BinOp.ofKind? t.kind = some o
  | negative, t => t.kind = .minus
  | leftParen, t => t.kind = .leftParen
  | rightParen, t => t.kind = .rightParen
  | leftBracket, t => t.kind = .leftBracket
  | rightBracket, t => t.kind = .rightBracket
  | openAngle, t => t.kind = .less
  | closeAngle, t => t.kind = .greater
  | comma, t => t.kind = .comma

/-- Tokens that spell words. -/
inductive Spells : List Word → List Token → Prop where
  | nil : Spells [] []
  | cons {w : Word} {ws : List Word} {t : Token} {ts : List Token} (h : w.Spelled t)
      (hrest : Spells ws ts) : Spells (w :: ws) (t :: ts)
  /-- The `>` that closes an index list, together with an `=` behind it. -/
  | closeEqual {ws : List Word} {t : Token} {ts : List Token} (hkind : t.kind = .greaterEqual)
      (htext : t.text = ">=") (hrest : Spells ws ts) :
      Spells (.closeAngle :: .op .equal :: ws) (t :: ts)

theorem BinOp.exists_ofKind? (op : BinOp) : ∃ k, BinOp.ofKind? k = some op := by
  cases op with
  | and => exact ⟨.keyword .AND, rfl⟩
  | or => exact ⟨.keyword .OR, rfl⟩
  | matching => exact ⟨.keyword .MATCHES, rfl⟩
  | compare manner relation => exact ⟨.relation manner relation, rfl⟩
  | concat => exact ⟨.colon, rfl⟩
  | multiConcat => exact ⟨.doubleColon, rfl⟩
  | arithmetic op =>
    cases op with
    | add => exact ⟨.plus, rfl⟩
    | sub => exact ⟨.minus, rfl⟩
    | mul => exact ⟨.star, rfl⟩
    | div => exact ⟨.slash, rfl⟩
  | multiArithmetic op =>
    cases op with
    | add => exact ⟨.doublePlus, rfl⟩
    | sub => exact ⟨.doubleMinus, rfl⟩
    | mul => exact ⟨.doubleStar, rfl⟩
    | div => exact ⟨.doubleSlash, rfl⟩
  | power => exact ⟨.caret, rfl⟩

theorem Word.exists_spelled (w : Word) : ∃ t, w.Spelled t := by
  cases w with
  | name text => exact ⟨⟨.ident, text, .blank, false⟩, rfl, rfl⟩
  | number text => exact ⟨⟨.number, text, .blank, false⟩, .inl rfl, rfl⟩
  | op o =>
    obtain ⟨k, hk⟩ := o.exists_ofKind?
    exact ⟨⟨k, "", .blank, false⟩, hk⟩
  | _ => exact ⟨⟨_, "", .blank, false⟩, rfl⟩

/-- All words can be put into tokens. -/
theorem exists_spells (ws : List Word) : ∃ ts, Spells ws ts := by
  induction ws with
  | nil => exact ⟨[], .nil⟩
  | cons w ws ih =>
    obtain ⟨t, ht⟩ := w.exists_spelled
    obtain ⟨ts, hts⟩ := ih
    exact ⟨t :: ts, .cons ht hts⟩

theorem Spells.length_le {ws : List Word} {ts : List Token} (h : Spells ws ts) :
    ws.length ≤ 2 * ts.length := by
  induction h with
  | nil => exact Nat.le_refl 0
  | cons _ _ ih => simp only [List.length_cons]; omega
  | closeEqual _ _ _ ih => simp only [List.length_cons]; omega

end BasicCheck
