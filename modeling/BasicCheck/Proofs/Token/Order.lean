import BasicCheck.Proofs.Token.Reader

/-!
# Tokens stand one behind the other

The tokens of a text do not overlap: each one but the last takes room, and none starts before the
one in front of it has stopped (`Lexed.inOrder_primary`). The grammar reads them in this order, so a
token that is still to be read stands behind all that have been read; what is kept of the tokens
of a procedure can therefore be told apart by where it stands.
-/

namespace BasicCheck

/-! ## 1. Order -/

/-- One token stands wholly in front of another. -/
def Token.Before (a b : Token) : Prop :=
  a.span.start < b.span.start ∧ a.span.stop ≤ b.span.start

/-- Tokens that stand one behind the other. -/
def InOrder (tokens : List Token) : Prop := tokens.Pairwise Token.Before

/-- Of two tokens that stand in order, one is in front of the other unless they are the same. -/
theorem InOrder.before_or {tokens : List Token} (h : InOrder tokens) {a b : Token}
    (ha : a ∈ tokens) (hb : b ∈ tokens) : a = b ∨ a.Before b ∨ b.Before a := by
  induction h with
  | nil => exact absurd ha List.not_mem_nil
  | @cons t rest ht _ ih =>
    rcases List.mem_cons.mp ha with rfl | ha'
    · rcases List.mem_cons.mp hb with rfl | hb'
      · exact Or.inl rfl
      · exact Or.inr (Or.inl (ht b hb'))
    · rcases List.mem_cons.mp hb with rfl | hb'
      · exact Or.inr (Or.inr (ht a ha'))
      · exact ih ha' hb'

/-- Of tokens that stand one behind the other, only one has a given span. -/
theorem InOrder.eq_of_span {tokens : List Token} (h : InOrder tokens) {a b : Token}
    (ha : a ∈ tokens) (hb : b ∈ tokens) (hspan : a.span = b.span) : a = b := by
  have hno {a b : Token} (hspan : a.span = b.span) (hab : a.Before b) : False := by
    have hlt := hab.1
    rw [hspan] at hlt
    exact Place.lt_irrefl _ hlt
  rcases h.before_or ha hb with heq | hab | hba
  · exact heq
  · exact (hno hspan hab).elim
  · exact (hno hspan.symm hba).elim

/-! ## 2. The tokens of a text -/

/-- A lexeme has at least one character. -/
theorem Piece.ne_nil_of_mem_ofChars {ctx : LexContext} {cs : List Char} {kind : Kind}
    {text : List Char} {fault : Option Cause} (h : lexeme kind text fault ∈ ofChars ctx cs) :
    text ≠ [] := by
  obtain ⟨_, _, _, -, rfl⟩ := exists_read_of_mem_ofChars h
  exact List.cons_ne_nil _ _

/-- The tokens of some pieces lie between the place before the pieces and the place behind them. -/
theorem Piece.mem_tokensFrom {file : Nat} {place : Place} {pieces : List Piece}
    (hp : ∀ kind text fault, lexeme kind text fault ∈ pieces → text ≠ []) {t : Token}
    (h : t ∈ tokensFrom file place pieces) :
    place ≤ t.span.start ∧ t.span.start < t.span.stop ∧
      t.span.stop ≤ place.after (pieces.flatMap chars) := by
  induction pieces generalizing place with
  | nil => exact absurd h List.not_mem_nil
  | cons piece rest ih =>
    have hrest : ∀ kind text fault, lexeme kind text fault ∈ rest → text ≠ [] :=
      fun kind text fault hm => hp kind text fault (List.mem_cons_of_mem _ hm)
    cases piece with
    | space text =>
      have hin : place.after text ≤ t.span.start ∧ t.span.start < t.span.stop ∧
          t.span.stop ≤ (place.after text).after (rest.flatMap chars) := ih hrest h
      obtain ⟨h1, h2, h3⟩ := hin
      rw [List.flatMap_cons, Place.after_append]
      exact ⟨Place.le_trans (Place.le_after _ _) h1, h2, h3⟩
    | lexeme kind text fault =>
      rw [List.flatMap_cons, Place.after_append]
      rcases List.mem_cons.mp h with rfl | h
      · exact ⟨Place.le_refl _, Place.lt_after _ (hp kind text fault List.mem_cons_self),
          Place.le_after _ _⟩
      · obtain ⟨h1, h2, h3⟩ := ih hrest h
        exact ⟨Place.le_trans (Place.le_after _ _) h1, h2, h3⟩

theorem Piece.inOrder_tokensFrom {file : Nat} {place : Place} {pieces : List Piece}
    (hp : ∀ kind text fault, lexeme kind text fault ∈ pieces → text ≠ []) :
    InOrder (tokensFrom file place pieces) := by
  induction pieces generalizing place with
  | nil => exact List.Pairwise.nil
  | cons piece rest ih =>
    have hrest : ∀ kind text fault, lexeme kind text fault ∈ rest → text ≠ [] :=
      fun kind text fault hm => hp kind text fault (List.mem_cons_of_mem _ hm)
    cases piece with
    | space text => exact ih hrest
    | lexeme kind text fault =>
      refine List.Pairwise.cons (fun t ht => ?_) (ih hrest)
      obtain ⟨h1, _, _⟩ := mem_tokensFrom hrest ht
      have hlt : place < place.after text :=
        Place.lt_after _ (hp kind text fault List.mem_cons_self)
      exact ⟨Place.lt_of_lt_of_le hlt h1, h1⟩

/-- **The tokens of a text stand one behind the other**, the end of the file behind all of them. -/
theorem Lexed.inOrder_tokens (source : String) (file : Nat) :
    InOrder (Lexed.ofText source file).tokens := by
  have hp : ∀ kind text fault,
      Piece.lexeme kind text fault ∈ Piece.ofChars .initial source.toList → text ≠ [] :=
    fun _ _ _ h => Piece.ne_nil_of_mem_ofChars h
  refine List.pairwise_append.mpr
    ⟨Piece.inOrder_tokensFrom hp, List.pairwise_singleton _ _, fun t ht e he => ?_⟩
  obtain ⟨_, h2, h3⟩ := Piece.mem_tokensFrom hp ht
  rw [Piece.flatMap_chars_ofChars] at h3
  obtain rfl := List.mem_singleton.mp he
  exact ⟨Place.lt_of_lt_of_le h2 h3, h3⟩

theorem Lexed.inOrder_primary (source : String) (file : Nat) :
    InOrder (Lexed.ofText source file).primary :=
  (inOrder_tokens source file).filter _

/-! ## 3. Where names stand -/

namespace Token

/-- A token stands where a name is among some tokens. -/
def IsNamed (read : List Token) (token : Token) : Prop :=
  ∃ u ∈ read, u.kind.IsName ∧ token.span = u.span

variable {read : List Token} {token : Token}

theorem IsNamed.of_subset {read' : List Token} (h : token.IsNamed read) (hsub : read ⊆ read') :
    token.IsNamed read' := by
  obtain ⟨u, hu, hname⟩ := h
  exact ⟨u, hsub hu, hname⟩

/-- What stands in front of a token or behind it is told by spans alone. -/
theorem before_congr {a b a' b' : Token} (ha : a.span = a'.span) (hb : b.span = b'.span) :
    a.Before b ↔ a'.Before b' := by
  unfold Before
  rw [ha, hb]

theorem IsNamed.before (h : token.IsNamed read) {t : Token} (hread : ∀ u ∈ read, u.Before t) :
    token.Before t := by
  obtain ⟨u, hu, -, hspan⟩ := h
  exact (before_congr hspan rfl).mpr (hread u hu)

end Token

end BasicCheck
