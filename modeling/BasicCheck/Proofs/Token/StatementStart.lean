import Mathlib.Data.List.DropRight
import BasicCheck.Proofs.Token.Delimited
import BasicCheck.Proofs.Token.Lossless

/-!
# Where a line comment starts

A `*`, a `!` or a `/` opens a line comment where a statement may start and is an operator, or not
expected, everywhere else. The lexer tells the two apart by what it remembers of the tokens so far;
that is enough to say whether the line up to here holds labels and nothing else, which is the rule
(`Lexed.lineComment_iff_labels`).

What the lexer remembers is tied to the kinds of all primary tokens so far (`LexContext.After`). One
token keeps this (`LexContext.After.push`), and so it holds wherever a token of a text was read
(`Piece.exists_context`).
-/

namespace BasicCheck

/-! ## 1. Lines and labels -/

namespace Kind

/-- The kinds behind the last separator. -/
def lineOf (kinds : List Kind) : List Kind := kinds.rtakeWhile (!·.isSeparator)

/-- Labels and nothing else: names, each with a colon behind it. -/
def IsLabels (kinds : List Kind) : Prop :=
  ∃ n, kinds = (List.replicate n [ident, colon]).flatten

theorem lineOf_concat (kinds : List Kind) (kind : Kind) :
    lineOf (kinds ++ [kind]) = if kind.isSeparator then [] else lineOf kinds ++ [kind] := by
  unfold lineOf
  rw [List.rtakeWhile_concat]
  cases kind.isSeparator <;> rfl

theorem isLabels_nil : IsLabels [] := ⟨0, rfl⟩

theorem not_isLabels_singleton (kind : Kind) : ¬ IsLabels [kind] := by
  rintro ⟨n, h⟩
  have hlength := congrArg List.length h
  simp only [List.length_cons, List.length_nil, List.length_flatten, List.map_replicate,
    List.sum_replicate_nat] at hlength
  omega

theorem isLabels_append_pair (kinds : List Kind) (first second : Kind) :
    IsLabels (kinds ++ [first, second]) ↔ second = colon ∧ first = ident ∧ IsLabels kinds := by
  constructor
  · rintro ⟨n, h⟩
    cases n with
    | zero => simp at h
    | succ n =>
      rw [List.replicate_succ', List.flatten_concat] at h
      obtain ⟨hkinds, hpair⟩ := List.append_inj' h rfl
      obtain ⟨hfirst, hsecond⟩ := List.cons.inj hpair
      exact ⟨(List.cons.inj hsecond).1, hfirst, n, hkinds⟩
  · rintro ⟨rfl, rfl, n, rfl⟩
    exact ⟨n + 1, by rw [List.replicate_succ', List.flatten_concat]⟩

/-- Behind one more token that ends no line, the line holds labels and nothing else just where this
    token is the colon of a last one. -/
theorem isLabels_lineOf_concat (kinds : List Kind) (kind : Kind) :
    IsLabels (lineOf kinds ++ [kind]) ↔
      kind = colon ∧ kinds.getLast? = some ident ∧ IsLabels (lineOf kinds.dropLast) := by
  cases kinds using List.reverseRecOn with
  | nil =>
    refine iff_of_false (not_isLabels_singleton kind) fun h => ?_
    cases h.2.1
  | append_singleton kinds last _ =>
    rw [lineOf_concat, List.getLast?_concat, List.dropLast_concat, Option.some.injEq]
    by_cases hlast : last.isSeparator = true
    · rw [if_pos hlast]
      refine iff_of_false (not_isLabels_singleton kind) fun h => ?_
      rw [h.2.1] at hlast
      cases hlast
    · rw [if_neg hlast, List.append_assoc]
      exact isLabels_append_pair _ _ _

end Kind

/-- The kinds of the primary ones among some tokens. -/
def Token.primaryKinds (tokens : List Token) : List Kind :=
  (tokens.filter (!·.kind.isTrivia)).map (·.kind)

/-! ## 2. What the lexer remembers -/

/-- What is remembered of primary tokens of some kinds. -/
structure LexContext.After (ctx : LexContext) (kinds : List Kind) : Prop where
  last : ctx.last = kinds.getLast?
  /-- A statement may start behind a line of labels. -/
  atStart : ctx.atStart = true ↔ Kind.IsLabels (Kind.lineOf kinds)
  lastAtStart : ctx.lastAtStart = true ↔ kinds ≠ [] ∧ Kind.IsLabels (Kind.lineOf kinds.dropLast)

namespace LexContext.After

theorem initial : LexContext.initial.After [] :=
  ⟨rfl, iff_of_true rfl Kind.isLabels_nil, iff_of_false Bool.false_ne_true fun h => h.1 rfl⟩

variable {ctx : LexContext} {kinds : List Kind}

/-- A primary token adds its kind to what is remembered. -/
theorem push_primary (h : ctx.After kinds) {kind : Kind} (hkind : kind.isTrivia = false) :
    (ctx.push kind).After (kinds ++ [kind]) := by
  unfold LexContext.push
  rw [hkind, if_neg Bool.false_ne_true]
  refine ⟨List.getLast?_concat.symm, ?_, ?_⟩
  · dsimp only
    rw [Kind.lineOf_concat]
    by_cases hseparator : kind.isSeparator = true
    · rw [if_pos hseparator, hseparator, Bool.true_or]
      exact iff_of_true rfl Kind.isLabels_nil
    · have hne : kinds.getLast? = some .ident → kinds ≠ [] := by
        rintro hlast rfl
        cases hlast
      rw [if_neg hseparator, Kind.isLabels_lineOf_concat, eq_false_of_ne_true hseparator,
        Bool.false_or, Bool.and_eq_true, Bool.and_eq_true, beq_iff_eq, beq_iff_eq, h.last,
        h.lastAtStart]
      exact ⟨fun ⟨⟨hcolon, _, hlabels⟩, hident⟩ => ⟨hcolon, hident, hlabels⟩,
        fun ⟨hcolon, hident, hlabels⟩ => ⟨⟨hcolon, hne hident, hlabels⟩, hident⟩⟩
  · dsimp only
    rw [h.atStart, List.dropLast_concat]
    exact (and_iff_right (List.concat_ne_nil _ _)).symm

/-- **One token keeps what is remembered right**; trivia change nothing. -/
theorem push (h : ctx.After kinds) (token : Token) :
    (ctx.push token.kind).After (kinds ++ Token.primaryKinds [token]) := by
  unfold Token.primaryKinds
  cases htrivia : token.kind.isTrivia with
  | false =>
    rw [List.filter_cons_of_pos (by rw [htrivia]; rfl)]
    exact h.push_primary htrivia
  | true =>
    rw [List.filter_cons_of_neg (by rw [htrivia]; exact Bool.false_ne_true), List.filter_nil,
      List.map_nil, List.append_nil, LexContext.push, if_pos htrivia]
    exact h

end LexContext.After

/-! ## 3. Where a token was read -/

/-- A token is what was read at the head of a text, with its fault, if any, among some faults. -/
structure Token.IsRead (token : Token) (ctx : LexContext) (first : Char) (rest : List Char)
    (faults : List Fault) : Prop where
  kind : token.kind = (Lexeme.read ctx.atStart first rest).kind
  fault : ∀ cause, (Lexeme.read ctx.atStart first rest).fault = some cause →
    ⟨cause, token.span⟩ ∈ faults

theorem Token.primaryKinds_cons (token : Token) (tokens : List Token) :
    primaryKinds (token :: tokens) = primaryKinds [token] ++ primaryKinds tokens := by
  unfold primaryKinds
  rw [← List.map_append, ← List.filter_append, List.singleton_append]

namespace Piece

variable {file : Nat} {place : Place}

/-- The faults behind a piece are among those of all pieces. -/
theorem faultsFrom_subset (piece : Piece) (rest : List Piece) :
    faultsFrom file (place.after piece.chars) rest ⊆ faultsFrom file place (piece :: rest) := by
  cases piece with
  | space text => exact List.Subset.refl _
  | lexeme kind text fault =>
    cases fault with
    | none => exact List.Subset.refl _
    | some cause => exact List.subset_cons_self _ _

/-- **Each token of a text was read with the right context**: that of the primary tokens in front of
    it. -/
theorem exists_context {ctx : LexContext} {cs : List Char} {kinds : List Kind}
    {before behind : List Token} {token : Token} (hctx : ctx.After kinds)
    (htokens : tokensFrom file place (ofChars ctx cs) = before ++ token :: behind) :
    ∃ (ctx' : LexContext) (front : List Char) (first : Char) (rest : List Char),
      ctx'.After (kinds ++ Token.primaryKinds before) ∧ cs = front ++ first :: rest ∧
      token.span.start = place.after front ∧
      token.IsRead ctx' first rest (faultsFrom file place (ofChars ctx cs)) := by
  fun_induction ofChars ctx cs generalizing place kinds before with
  | case1 => simp [tokensFrom] at htokens
  | case2 ctx c rest hblank ih =>
    obtain ⟨ctx', front, first, more, hafter, hrest, hstart, hread⟩ := ih hctx htokens
    refine ⟨ctx', (c :: rest.takeWhile isBlank) ++ front, first, more, hafter, ?_, ?_, hread⟩
    · rw [List.append_assoc, ← hrest, List.cons_append, List.takeWhile_append_dropWhile]
    · rw [hstart, Place.after_append]
  | case3 ctx c rest hblank hfeed ih =>
    obtain ⟨ctx', front, first, more, hafter, rfl, hstart, hread⟩ := ih hctx htokens
    exact ⟨ctx', c :: front, first, more, hafter, rfl, hstart, hread⟩
  | case4 ctx c rest hblank hfeed found =>
    rename_i ih
    cases before with
    | nil =>
      -- the token is the first one
      obtain ⟨rfl, -⟩ := List.cons.inj htokens
      refine ⟨ctx, [], c, rest, ?_, rfl, rfl, rfl, fun cause hcause => ?_⟩
      · rw [show Token.primaryKinds [] = [] from rfl, List.append_nil]
        exact hctx
      · have hfault : found.fault = some cause := hcause
        rw [hfault]
        exact List.mem_cons_self
    | cons head before =>
      obtain ⟨hhead, hlater⟩ := List.cons.inj htokens
      have hkind : found.kind = head.kind := congrArg Token.kind hhead
      have hpush := hctx.push head
      rw [← hkind] at hpush
      obtain ⟨ctx', front, first, more, hafter, hrest, hstart, hread⟩ := ih hpush hlater
      refine ⟨ctx', (c :: rest.take found.extra) ++ front, first, more, ?_, ?_, ?_, hread.kind,
        fun cause hcause => faultsFrom_subset _ _ (hread.fault cause hcause)⟩
      · rwa [Token.primaryKinds_cons, ← List.append_assoc]
      · rw [List.append_assoc, ← hrest, List.cons_append, List.take_append_drop]
      · rw [hstart, Place.after_append]

end Piece

/-! ## 4. What a sign is read as -/

namespace Lexeme

variable {c : Char} {rest : List Char}

/-- Where a statement may start, the three signs open a line comment. -/
theorem read_atStart (hopens : c = '*' ∨ c = '!' ∨ c = '/')
    (hblock : c = '/' → rest.head? ≠ some '*') :
    read true c rest = lineComment rest := by
  have hfeed : c ≠ '\n' := by
    rintro rfl
    simp at hopens
  unfold read
  rw [if_neg hfeed, if_neg fun h => hblock h.1 h.2, if_pos ⟨rfl, hopens⟩]

/-- Elsewhere they are read as operators are. -/
theorem read_within (hopens : c = '*' ∨ c = '!' ∨ c = '/')
    (hblock : c = '/' → rest.head? ≠ some '*') :
    read false c rest = operator c rest := by
  rcases hopens with rfl | rfl | rfl
  · exact read_sign (by decide) hblock
  · rfl
  · exact read_sign (by decide) hblock

/-- The operators that open with one of the three signs; a `!` opens none. -/
def operatorsOf : Char → List Kind
  | '*' => [.star, .doubleStar, .starEqual]
  | '/' => [.slash, .doubleSlash, .slashEqual]
  | _ => []

/-- An operator stands in one of the two tables of signs, or its character is not expected. -/
theorem operator_cases (c : Char) (rest : List Char) :
    (∃ next, ((c, next), (operator c rest).kind) ∈ doubleSigns) ∨
      (c, (operator c rest).kind) ∈ signs ∨
      operator c rest = ⟨.unknown, 0, some (.unexpectedChar c)⟩ ∧ signs.lookup c = none := by
  unfold operator
  split
  · rename_i kind hdouble
    refine .inl ?_
    unfold doubleSign? at hdouble
    split at hdouble
    · cases hdouble
    · rename_i next more
      split at hdouble
      · cases hdouble
      · obtain ⟨before, behind, hrows, -⟩ := List.lookup_eq_some_iff.mp hdouble
        exact ⟨next, hrows ▸ List.mem_append_right _ List.mem_cons_self⟩
  · split
    · rename_i kind hsingle
      obtain ⟨before, behind, hrows, -⟩ := List.lookup_eq_some_iff.mp hsingle
      exact .inr (.inl (hrows ▸ List.mem_append_right _ List.mem_cons_self))
    · exact .inr (.inr ⟨rfl, ‹_›⟩)

/-- The three signs as operators: the tables have those of `*` and `/`, and no `!`. -/
theorem operator_of_sign (hopens : c = '*' ∨ c = '!' ∨ c = '/') :
    (operator c rest).kind ∈ operatorsOf c ∨
      c = '!' ∧ operator c rest = ⟨.unknown, 0, some (.unexpectedChar c)⟩ := by
  have hdouble : ∀ row ∈ doubleSigns, row.1.1 = '*' ∨ row.1.1 = '!' ∨ row.1.1 = '/' →
      row.2 ∈ operatorsOf row.1.1 := by decide
  have hsingle : ∀ row ∈ signs, row.1 = '*' ∨ row.1 = '!' ∨ row.1 = '/' →
      row.2 ∈ operatorsOf row.1 := by decide
  rcases operator_cases c rest with ⟨next, hrow⟩ | hrow | ⟨heq, hnone⟩
  · exact .inl (hdouble _ hrow hopens)
  · exact .inl (hsingle _ hrow hopens)
  · rcases hopens with rfl | rfl | rfl
    · cases hnone
    · exact .inr ⟨rfl, heq⟩
    · cases hnone

theorem kind_operator_ne_lineComment (c : Char) (rest : List Char) :
    (operator c rest).kind ≠ .lineComment :=
  kind_operator c rest (p := (· ≠ .lineComment)) (by decide) (by decide) (by decide)

end Lexeme

/-! ## 5. Texts -/

/-- A stretch of text is told by its beginning and the place behind it. -/
theorem Place.eq_of_after_eq {place : Place} {front front' rest rest' : List Char}
    (htext : front ++ rest = front' ++ rest') (hplace : place.after front = place.after front') :
    front = front' := by
  have hnil {front more : List Char} (h : place.after front = place.after (front ++ more)) :
      more = [] := by
    by_contra hmore
    have hlt := lt_after (place.after front) hmore
    rw [← after_append, ← h] at hlt
    exact lt_irrefl _ hlt
  rcases List.append_eq_append_iff.mp htext with ⟨more, rfl, -⟩ | ⟨more, rfl, -⟩
  · rw [hnil hplace, List.append_nil]
  · rw [hnil hplace.symm, List.append_nil]

namespace Lexed

variable {source : String} {file : Nat} {before behind : List Token} {token : Token} {i : Nat}
  {c : Char}

/-- A token that starts at a character of a text is not the end of the text. -/
theorem tokensFrom_of_start (htokens : (ofText source file).tokens = before ++ token :: behind)
    (hi : i < source.toList.length) (hstart : token.span.start = .ofOffset source.toList i) :
    ∃ behind', Piece.tokensFrom file .origin (Piece.ofChars .initial source.toList) =
      before ++ token :: behind' := by
  have hall : Piece.tokensFrom file .origin (Piece.ofChars .initial source.toList) ++
      [.endAt ⟨Place.origin.after source.toList, Place.origin.after source.toList, file⟩] =
      before ++ token :: behind := htokens
  cases behind using List.reverseRecOn with
  | append_singleton behind last _ =>
    rw [← List.cons_append, ← List.append_assoc] at hall
    exact ⟨behind, List.append_inj_left' hall rfl⟩
  | nil =>
    obtain ⟨-, hlast⟩ := List.append_inj' hall rfl
    obtain ⟨hend, -⟩ := List.cons.inj hlast
    rw [← hend, Place.ofOffset, ← Place.after_origin] at hstart
    have hsplit : source.toList ++ [] = source.toList.take i ++ source.toList.drop i := by
      rw [List.append_nil, List.take_append_drop]
    have hlength := congrArg List.length (Place.eq_of_after_eq hsplit hstart)
    rw [List.length_take_of_le (Nat.le_of_lt hi)] at hlength
    omega

/-- The token that starts at a character of a text was read there, and with the right context. -/
theorem exists_context (htokens : (ofText source file).tokens = before ++ token :: behind)
    (hc : source.toList[i]? = some c) (hstart : token.span.start = .ofOffset source.toList i) :
    ∃ ctx : LexContext, ctx.After (Token.primaryKinds before) ∧
      token.IsRead ctx c (source.toList.drop (i + 1)) (ofText source file).faults := by
  obtain ⟨hi, hget⟩ := List.getElem?_eq_some_iff.mp hc
  obtain ⟨behind', hlexemes⟩ := tokensFrom_of_start htokens hi hstart
  obtain ⟨ctx, front, first, rest, hctx, hsource, hfront, hread⟩ :=
    Piece.exists_context LexContext.After.initial hlexemes
  -- the place tells which character of the text the token was read at
  have hhere : source.toList.take i ++ c :: source.toList.drop (i + 1) = front ++ first :: rest := by
    rw [← hget, List.getElem_cons_drop, List.take_append_drop, hsource]
  have hplace : Place.origin.after (source.toList.take i) = Place.origin.after front := by
    rw [← hfront, hstart, Place.ofOffset, Place.after_origin]
  rw [Place.eq_of_after_eq hhere hplace] at hhere
  obtain ⟨rfl, hrest⟩ := List.cons.inj (List.append_cancel_left hhere)
  exact ⟨ctx, hctx, hrest ▸ hread⟩

/-- **Line comments start exactly at statement starts.** Where a token of a text starts with a `*`, a
    `!` or a `/` that opens no block comment, it is a line comment if the primary tokens behind the
    last separator are labels and nothing else, and only then. Otherwise it is one of the operators
    that the sign opens, or a character that is not expected. -/
theorem lineComment_iff_labels
    (htokens : (ofText source file).tokens = before ++ token :: behind)
    (hc : source.toList[i]? = some c) (hstart : token.span.start = .ofOffset source.toList i)
    (hopens : c = '*' ∨ c = '!' ∨ c = '/') (hblock : c = '/' → source.toList[i + 1]? ≠ some '*') :
    (token.kind = .lineComment ↔ Kind.IsLabels (Kind.lineOf (Token.primaryKinds before))) ∧
      (token.kind ≠ .lineComment → token.kind ∈ Lexeme.operatorsOf c ∨
        c = '!' ∧ token.kind = .unknown ∧
          ⟨.unexpectedChar c, token.span⟩ ∈ (ofText source file).faults) := by
  obtain ⟨ctx, hctx, hread⟩ := exists_context htokens hc hstart
  rw [← List.head?_drop] at hblock
  obtain ⟨hkind, hfault⟩ := hread
  -- the lexer decides by its context, which is at a start exactly behind labels
  cases hstarts : ctx.atStart with
  | true =>
    rw [hstarts, Lexeme.read_atStart hopens hblock] at hkind
    exact ⟨iff_of_true hkind (hctx.atStart.mp hstarts), fun h => absurd hkind h⟩
  | false =>
    rw [hstarts, Lexeme.read_within hopens hblock] at hkind hfault
    have hlabels : ¬ Kind.IsLabels (Kind.lineOf (Token.primaryKinds before)) := by
      rw [← hctx.atStart, hstarts]
      exact Bool.false_ne_true
    refine ⟨iff_of_false ?_ hlabels, fun _ => ?_⟩
    · rw [hkind]
      exact Lexeme.kind_operator_ne_lineComment c _
    · rcases Lexeme.operator_of_sign hopens with hoperator | ⟨hc, hunexpected⟩
      · exact .inl (hkind ▸ hoperator)
      · rw [hunexpected] at hkind hfault
        exact .inr ⟨hc, hkind, hfault _ rfl⟩

/-- A `*` behind two labels and one behind a number: what stands in front of each, and what the
    theorem says of it. -/
theorem lineComment_iff_labels_chain :
    let tokens := (ofText "a: b: * c\nx = 2 * 3\n" 0).tokens
    ∃ comment product : Token,
      tokens = tokens.take 4 ++ comment :: tokens.drop 5 ∧
      tokens = tokens.take 9 ++ product :: tokens.drop 10 ∧
      (comment.kind = .lineComment ↔
        Kind.IsLabels (Kind.lineOf (Token.primaryKinds (tokens.take 4)))) ∧
      (product.kind ≠ .lineComment → product.kind ∈ Lexeme.operatorsOf '*' ∨
        '*' = '!' ∧ product.kind = .unknown ∧ ⟨.unexpectedChar '*', product.span⟩ ∈
          (ofText "a: b: * c\nx = 2 * 3\n" 0).faults) := by
  intro tokens
  let comment : Token := ⟨.lineComment, "* c", .onLine 1 6 9 0, false⟩
  let product : Token := ⟨.star, "*", .onLine 2 6 7 0, false⟩
  have hcomment : tokens = tokens.take 4 ++ comment :: tokens.drop 5 := by decide +kernel
  have hproduct : tokens = tokens.take 9 ++ product :: tokens.drop 10 := by decide +kernel
  have hsix : comment.span.start = .ofOffset "a: b: * c\nx = 2 * 3\n".toList 6 := by decide
  have hsixteen : product.span.start = .ofOffset "a: b: * c\nx = 2 * 3\n".toList 16 := by decide
  refine ⟨comment, product, hcomment, hproduct, ?_, ?_⟩
  · exact (lineComment_iff_labels hcomment rfl hsix (.inl rfl) (by decide)).1
  · exact (lineComment_iff_labels hproduct rfl hsixteen (.inl rfl) (by decide)).2

end Lexed

end BasicCheck
