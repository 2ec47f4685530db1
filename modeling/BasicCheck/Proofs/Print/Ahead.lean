import Mathlib.Tactic.IntervalCases
import BasicCheck.Parse.Expression
import BasicCheck.Proofs.Parse.Evaluate
import BasicCheck.Proofs.Print.Words

/-!
# States in front of words

A state is ahead of words if its unread tokens spell them (`Ahead`), nothing has been reported and no
name stands for anything but a plain variable. A token `>=` of which the `>` has been read counts as
an `=` that is unread, so that it makes no difference to what follows whether an index list was closed
by a token of its own (`Ahead.closeAngle`). Each small step goes on from states ahead of a word to states ahead of the next
words; the kind of the word that comes next tells which operators cannot (`Ahead.operatorAt_eq_false`).
-/

namespace BasicCheck

/-! ## 1. Tables of plain variables -/

/-- What every symbol means is of some sort. -/
def SymbolTable.Means (p : Meaning → Prop) (table : SymbolTable) : Prop :=
  ∀ (i : Nat) (symbol : Symbol), table.symbols[i]? = some symbol → p symbol.meaning

/-- Every name stands for a variable that is no matrix. -/
def SymbolTable.OnlyVariables (table : SymbolTable) : Prop :=
  table.Means fun m => ∃ scope, m = .variable scope .dynamic

namespace SymbolTable

variable {table : SymbolTable} {p : Meaning → Prop}

theorem means_empty : empty.Means p := by
  intro i symbol h
  cases h

theorem Means.addReference (h : table.Means p) (id : Nat) (token : Token) :
    (table.addReference id token).Means p := by
  intro i symbol hsymbol
  simp only [SymbolTable.addReference, Array.getElem?_modify] at hsymbol
  split at hsymbol
  · obtain ⟨old, hold, rfl⟩ := Option.map_eq_some_iff.mp hsymbol
    exact h i old hold
  · exact h i symbol hsymbol

theorem Means.create (h : table.Means p) (token : Token) {meaning : Meaning} (hp : p meaning) :
    (table.create token meaning).Means p := by
  refine Means.addReference (fun i symbol hsymbol => ?_) _ _
  rw [Array.getElem?_push] at hsymbol
  split at hsymbol
  · cases hsymbol
    exact hp
  · exact h i symbol hsymbol

theorem Means.referenceVariable (h : table.Means p) (hp : ∀ scope, p (.variable scope .dynamic))
    (token : Token) : (table.referenceVariable token).2.Means p := by
  unfold SymbolTable.referenceVariable referenceOrCreate
  split
  · exact h.addReference _ _
  · exact h.create token (hp _)

theorem Means.reference? (h : table.Means p) (kind : SymbolKind) (token : Token) :
    (table.reference? kind token).2.Means p := by
  unfold SymbolTable.reference?
  split
  · exact h.addReference _ _
  · exact h

theorem OnlyVariables.isMatrix (h : table.OnlyVariables) (name : String) :
    table.isMatrix name = false := by
  unfold SymbolTable.isMatrix lookup?
  rw [← Bool.not_eq_true, Option.any_eq_true]
  rintro ⟨symbol, hsymbol, hmatrix⟩
  obtain ⟨id, -, hsymbol⟩ := Option.bind_eq_some_iff.mp hsymbol
  obtain ⟨scope, hmeaning⟩ := h id symbol hsymbol
  rw [Symbol.isMatrix, hmeaning] at hmatrix
  cases hmatrix

end SymbolTable

namespace Parse

/-! ## 2. Unread tokens -/

namespace State

/-- The tokens that are unread, the second half of a split one included. -/
def ahead (s : State) : List Token :=
  match s.split with
  | some whole => equalHalf whole :: s.rest.tokens
  | none => s.rest.tokens

theorem current_eq_headD (s : State) : s.current = s.ahead.headD s.eof := by
  unfold current ahead
  cases s.split <;> rfl

theorem advance_of_ahead {s : State} {t : Token} {more : List Token} (h : s.ahead = t :: more) :
    ∃ u, s.advance = (t, u) ∧ u.ahead = more ∧ u.diagnostics = s.diagnostics ∧
      u.symbols = s.symbols ∧ u.eof = s.eof := by
  unfold ahead at h
  unfold advance
  cases hsplit : s.split with
  | some whole =>
    rw [hsplit] at h
    cases h
    exact ⟨_, rfl, rfl, rfl, rfl, rfl⟩
  | none =>
    rw [hsplit] at h
    simp only [h]
    refine ⟨_, rfl, ?_, rfl, rfl, rfl⟩
    simp only [ahead, Unread.tail, h, List.tail_cons]

end State

/-! ## 3. States ahead of words -/

/-- The unread tokens spell some words, then come those of the tail; nothing has been reported and all
    names are those of variables. -/
structure Ahead (tail : List Token) (ws : List Word) (s : State) : Prop where
  tokens : ∃ ts, s.ahead = ts ++ tail ∧ Spells ws ts
  diagnostics : s.diagnostics = #[]
  plain : s.symbols.OnlyVariables
  eof : s.eof.kind = .endOfFile

namespace Ahead

variable {tail : List Token} {ws rest : List Word} {w : Word} {s : State}

/-- No more words than steps forward. -/
theorem length_le_size (h : Ahead tail ws s) : ws.length ≤ s.size := by
  obtain ⟨ts, hahead, hspells⟩ := h.tokens
  unfold State.ahead at hahead
  unfold State.size
  rw [s.rest.count_eq]
  -- half of a token that is ahead counts as a step of its own
  cases hsplit : s.split with
  | none =>
    rw [hsplit] at hahead
    have hlength := hspells.length_le
    have hcount : s.rest.tokens.length = ts.length + tail.length := by
      rw [show s.rest.tokens = ts ++ tail from hahead, List.length_append]
    omega
  | some whole =>
    rw [hsplit] at hahead
    cases hspells with
    | nil => exact Nat.zero_le _
    | cons hw hrest =>
      have hlength := hrest.length_le
      have hcount := congrArg List.length hahead
      simp only [List.length_cons, List.length_append, List.cons_append] at hcount
      simp only [List.length_cons, Option.isSome_some, if_true]
      omega
    | closeEqual hkind htext hrest =>
      have hhead := (List.cons.inj hahead).1
      rw [← hhead] at hkind
      cases hkind

/-- The next token is read, and reading is ahead of what the tokens behind it spell. -/
theorem of_cons {tail' : List Token} {ws' : List Word} {t : Token} {ts : List Token}
    (h : Ahead tail ws s) (hahead : s.ahead = t :: (ts ++ tail')) (hspells : Spells ws' ts) :
    ∃ u, s.current = t ∧ s.advance = (t, u) ∧ Ahead tail' ws' u := by
  obtain ⟨u, hadvance, hmore, hdiagnostics, hsymbols, heof⟩ := State.advance_of_ahead hahead
  refine ⟨u, ?_, hadvance, ⟨ts, hmore, hspells⟩, ?_, ?_, ?_⟩
  · rw [State.current_eq_headD, hahead]
    rfl
  · rw [hdiagnostics, h.diagnostics]
  · rw [hsymbols]
    exact h.plain
  · rw [heof, h.eof]

/-- A word other than a closing `>` has a token of its own. -/
theorem next (h : Ahead tail (w :: ws) s) (hw : w ≠ .closeAngle) :
    ∃ t u, w.Spelled t ∧ s.current = t ∧ s.advance = (t, u) ∧ Ahead tail ws u := by
  obtain ⟨ts, hahead, hspells⟩ := h.tokens
  cases hspells with
  | cons hspelled hrest =>
    obtain ⟨u, hcurrent, hadvance, hu⟩ := h.of_cons hahead hrest
    exact ⟨_, u, hspelled, hcurrent, hadvance, hu⟩
  | closeEqual => exact absurd rfl hw

/-- **The `>` of an index list is read, whether it has a token of its own or not.** -/
theorem closeAngle (h : Ahead tail (.closeAngle :: ws) s) :
    ∃ u, Parse.closeAngle s = (true, u) ∧ Ahead tail ws u := by
  obtain ⟨ts, hahead, hspells⟩ := h.tokens
  have hcurrent := State.current_eq_headD s
  rw [hahead] at hcurrent
  -- the sign is a token of its own, or the first half of a token whose other half is the sign behind it
  cases hspells with
  | @cons _ _ t ts hspelled hrest =>
    have hkind : s.current.kind = .greater := by
      rw [hcurrent]
      exact hspelled
    obtain ⟨u, -, hadvance, hu⟩ := h.of_cons hahead hrest
    exact ⟨u, step_bind (consume_of_eq hkind hadvance), hu⟩
  | @closeEqual ws t ts hkind htext hrest =>
    have hcurrent : s.current = t := hcurrent
    have hne : s.current.kind ≠ .greater := by
      rw [hcurrent, hkind]
      nofun
    have hsplit : s.split = none := by
      unfold State.ahead at hahead
      cases hsplit : s.split with
      | none => rfl
      | some whole =>
        rw [hsplit] at hahead
        rw [← (List.cons.inj hahead).1] at hkind
        cases hkind
    refine ⟨{ s with rest := s.rest.tail, last := some t, split := some t }, ?_, ⟨equalHalf t :: ts, ?_,
      .cons rfl hrest⟩, h.diagnostics, h.plain, h.eof⟩
    · refine (step_bind (consume_of_ne hne)).trans ?_
      show splitGreaterEqual s = _
      unfold splitGreaterEqual
      rw [hcurrent]
      exact if_pos ⟨hkind, htext⟩
    · unfold State.ahead at hahead
      rw [hsplit] at hahead
      show equalHalf t :: s.rest.tokens.tail = _
      rw [show s.rest.tokens = t :: ts ++ tail from hahead]
      rfl

/-- Noting a name changes nothing but the table, which stays without matrices. -/
theorem noteVariable (h : Ahead tail ws s) (token : Token) :
    ∃ u, Parse.noteVariable token s = ((), u) ∧ Ahead tail ws u :=
  ⟨_, rfl, h.tokens, h.diagnostics,
    h.plain.referenceVariable (fun scope => ⟨scope, rfl⟩) token, h.eof⟩

theorem noteIfKnown (h : Ahead tail ws s) (kind : SymbolKind) (token : Token) :
    ∃ known u, Parse.noteIfKnown kind token s = (known, u) ∧ Ahead tail ws u :=
  ⟨_, _, rfl, h.tokens, h.diagnostics, h.plain.reference? kind token, h.eof⟩

end Ahead

/-! ## 4. What may stand behind an operand -/

/-- The operators that a level of the grammar takes. -/
def operatorAt : Nat → Kind → Bool
  | 1 => Kind.isLogical
  | 2 => Kind.isComparison
  | 3 => Kind.isConcatenation
  | 4 => Kind.isAdditive
  | 5 => Kind.isMultiplicative
  | _ => (· == .caret)

theorem operatorAt_eq {k : Kind} {o : BinOp} (h : BinOp.ofKind? k = some o) {n : Nat} (hn : 1 ≤ n)
    (hn' : n ≤ 6) : operatorAt n k = (o.level == n) := by
  unfold BinOp.ofKind? at h
  split at h <;> cases h <;> interval_cases n <;> rfl

theorem operatorAt_eq_false {k : Kind} (h : BinOp.ofKind? k = none) {n : Nat} (hn : 1 ≤ n)
    (hn' : n ≤ 6) : operatorAt n k = false := by
  by_contra hk
  rw [Bool.not_eq_false] at hk
  interval_cases n
  · change Kind.isLogical k = true at hk
    unfold Kind.isLogical at hk
    split at hk <;> first | cases h | cases hk
  · change Kind.isComparison k = true at hk
    unfold Kind.isComparison at hk
    split at hk <;> first | cases h | cases hk
  · change Kind.isConcatenation k = true at hk
    unfold Kind.isConcatenation at hk
    split at hk <;> first | cases h | cases hk
  · change Kind.isAdditive k = true at hk
    unfold Kind.isAdditive at hk
    split at hk <;> first | cases h | cases hk
  · change Kind.isMultiplicative k = true at hk
    unfold Kind.isMultiplicative at hk
    split at hk <;> first | cases h | cases hk
  · rw [eq_of_beq hk] at h
    cases h

/-- Kinds that no level from a given one on takes for an operator, and that open no suffix unless
    suffixes are asked for. -/
structure Closes (level : Nat) (k : Kind) : Prop where
  operator (n : Nat) : level ≤ n → n ≤ 6 → operatorAt n k = false
  less : level ≤ 8 → k ≠ .less
  bracket : level ≤ 8 → k ≠ .leftBracket
  arrow : k ≠ .arrow
  paren : k ≠ .leftParen

end Parse

namespace Word

/-- Words that may stand behind an operand of a level. -/
def Stops (level : Nat) : Word → Prop
  | op o => o ≠ .less ∧ o.level < level
  | rightParen | rightBracket | comma => True
  | closeAngle => 2 < level
  | leftBracket | openAngle => 8 < level
  | name _ | number _ | negative | leftParen => False

theorem Stops.mono {w : Word} {level level' : Nat} (h : w.Stops level) (hle : level ≤ level') :
    w.Stops level' := by
  cases w with
  | op o => exact ⟨h.1, Nat.lt_of_lt_of_le h.2 hle⟩
  | closeAngle | leftBracket | openAngle => exact Nat.lt_of_lt_of_le h hle
  | _ => exact h

/-- Words behind which a list of items does not go on: those that close it, and operators. -/
def ClosesList : Word → Prop
  | rightParen | rightBracket | closeAngle | op _ => True
  | _ => False

end Word

namespace Parse

/-- The kind of an operator that is looser than a level. -/
theorem closes_of_ofKind? {k : Kind} {o : BinOp} {level : Nat} (h : BinOp.ofKind? k = some o)
    (hlevel : o.level < level) (hless : level ≤ 8 → o ≠ .less) : Closes level k where
  operator n hn hn' := by
    rw [operatorAt_eq h (Nat.le_trans (Nat.one_le_of_lt hlevel) hn) hn']
    exact beq_eq_false_iff_ne.mpr (Nat.ne_of_lt (Nat.lt_of_lt_of_le hlevel hn))
  less hle hk := by
    rw [hk] at h
    cases h
    exact hless hle rfl
  bracket _ hk := by
    rw [hk] at h
    cases h
  arrow hk := by
    rw [hk] at h
    cases h
  paren hk := by
    rw [hk] at h
    cases h

theorem closes_of_spelled {w : Word} {t : Token} {level : Nat} (h : w.Spelled t)
    (hstops : w.Stops level) (hlevel : 1 ≤ level) : Closes level t.kind := by
  cases w with
  | op o => exact closes_of_ofKind? h hstops.2 fun _ => hstops.1
  | closeAngle =>
    rw [show t.kind = .greater from h]
    exact closes_of_ofKind? (o := .compare .plain .gt) rfl hstops nofun
  | openAngle =>
    have hhigh : 8 < level := hstops
    rw [show t.kind = .less from h]
    exact closes_of_ofKind? (o := .less) rfl (by show 2 < level; omega) fun hle => by omega
  | leftBracket =>
    have hhigh : 8 < level := hstops
    rw [show t.kind = .leftBracket from h]
    exact ⟨fun n hn hn' => by omega, fun _ => nofun, fun hle => by omega, nofun, nofun⟩
  | rightParen | rightBracket | comma =>
    rw [show t.kind = _ from h]
    refine ⟨fun n hn hn' => operatorAt_eq_false rfl (Nat.le_trans hlevel hn) hn', ?_, ?_, ?_, ?_⟩ <;>
      nofun
  | name _ | number _ | negative | leftParen => exact hstops.elim

/-- Kinds that are no operators and open no suffix end every operand. -/
theorem closes_of_ofKind?_eq_none {k : Kind} {level : Nat} (h : BinOp.ofKind? k = none)
    (hbracket : k ≠ .leftBracket) (harrow : k ≠ .arrow) (hparen : k ≠ .leftParen)
    (hlevel : 1 ≤ level) : Closes level k where
  operator n hn hn' := operatorAt_eq_false h (Nat.le_trans hlevel hn) hn'
  less _ hk := by
    rw [hk] at h
    cases h
  bracket _ := hbracket
  arrow := harrow
  paren := hparen

theorem closes_newline {level : Nat} (hlevel : 1 ≤ level) : Closes level .newline :=
  closes_of_ofKind?_eq_none rfl nofun nofun nofun hlevel

theorem Closes.mono {k : Kind} {level level' : Nat} (h : Closes level k) (hle : level ≤ level') :
    Closes level' k :=
  ⟨fun n hn => h.operator n (Nat.le_trans hle hn), fun hn => h.less (Nat.le_trans hle hn),
    fun hn => h.bracket (Nat.le_trans hle hn), h.arrow, h.paren⟩

/-- **What comes next tells which operators cannot.** -/
theorem Ahead.closes {behind : Token} {more : List Token} {ws : List Word} {s : State} {level : Nat}
    (h : Ahead (behind :: more) ws s) (hbehind : Closes 1 behind.kind)
    (hstops : ∀ w ∈ ws.head?, w.Stops level) (hlevel : 1 ≤ level) : Closes level s.current.kind := by
  obtain ⟨ts, hahead, hspells⟩ := h.tokens
  rw [State.current_eq_headD, hahead]
  cases hspells with
  | nil => exact hbehind.mono hlevel
  | cons hspelled hrest => exact closes_of_spelled hspelled (hstops _ rfl) hlevel
  | closeEqual hkind htext hrest =>
    rw [List.cons_append, List.headD_cons, hkind]
    exact closes_of_ofKind? (o := .compare .plain .ge) rfl (hstops .closeAngle rfl) nofun

theorem Ahead.kind_ne_comma {tail : List Token} {w : Word} {ws : List Word} {s : State}
    (h : Ahead tail (w :: ws) s) (hw : w.ClosesList) : s.current.kind ≠ .comma := by
  obtain ⟨ts, hahead, hspells⟩ := h.tokens
  rw [State.current_eq_headD, hahead]
  cases hspells with
  | @cons _ _ t _ hspelled hrest =>
    rw [List.cons_append, List.headD_cons]
    cases w with
    | rightParen | rightBracket | closeAngle =>
      rw [show Token.kind _ = _ from hspelled]
      nofun
    | op o =>
      intro hk
      have hoperator : BinOp.ofKind? t.kind = some o := hspelled
      rw [hk] at hoperator
      cases hoperator
    | _ => exact hw.elim
  | closeEqual hkind htext hrest =>
    rw [List.cons_append, List.headD_cons, hkind]
    nofun

end Parse

end BasicCheck
