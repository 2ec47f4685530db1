import Mathlib.Data.List.Induction
import BasicCheck.Proofs.Token.Order
import BasicCheck.Proofs.Token.Reader

/-!
# No character is lost

The tokens of a text are slices of it that stand one behind the other, each with the place of its
two ends as its span, and what lies between them is blanks and line feeds that end nothing
(`Lexed.lossless`). Primary tokens and trivia are kept apart for the grammar; merged by their places
they are the tokens in the order of the text again (`Lexed.merged_ofText`).

The offsets of the slices are read off the pieces of the text (`Piece.slicesFrom`), so every fact
here is an induction over the pieces; only what lies in the gaps depends on how the pieces were cut,
and follows the recursion of `Piece.ofChars`.
-/

namespace BasicCheck

/-! ## 1. Offsets and their places -/

/-- The place of an offset of a text: the line feeds in front of it give the line, the characters
    behind the last of them the column. -/
def Place.ofOffset (cs : List Char) (n : Nat) : Place where
  line := 1 + (cs.take n).count '\n'
  column := ((cs.take n).reverse.takeWhile (· != '\n')).length

/-- Walking over a text counts its line feeds and what stands behind the last of them. -/
theorem Place.after_origin (cs : List Char) :
    origin.after cs =
      ⟨1 + cs.count '\n', (cs.reverse.takeWhile (· != '\n')).length⟩ := by
  -- the column depends on the end of the text, so the text grows at its end
  induction cs using List.reverseRecOn with
  | nil => rfl
  | append_singleton cs c ih =>
    rw [after_append, ih, after_cons, after_nil, step]
    by_cases h : c = '\n'
    · simp [h, Nat.add_assoc]
    · simp [h]

theorem Place.ofOffset_append (before text : List Char) :
    ofOffset (before ++ text) before.length = origin.after before := by
  rw [after_origin, ofOffset, List.take_left]

/-- A stretch of a text by its two offsets. -/
structure Slice where
  start : Nat
  stop : Nat
  deriving DecidableEq, Repr

/-- A token is a slice of a text: it is not empty, its text stands there, and its span is the places
    of the two ends. -/
structure Token.IsSlice (cs : List Char) (file : Nat) (slice : Slice) (t : Token) : Prop where
  nonempty : slice.start < slice.stop
  within : slice.stop ≤ cs.length
  text : t.text = String.ofList ((cs.take slice.stop).drop slice.start)
  span : t.span = ⟨Place.ofOffset cs slice.start, Place.ofOffset cs slice.stop, file⟩

/-- An offset lies in none of some slices. -/
def Uncovered (laid : List (Slice × Token)) (i : Nat) : Prop :=
  ∀ p ∈ laid, i < p.1.start ∨ p.1.stop ≤ i

/-- The kind of the last primary token that stops at an offset or in front of it. -/
def lastPrimary (laid : List (Slice × Token)) (i : Nat) : Option Kind :=
  (laid.filter fun p => !p.2.kind.isTrivia && decide (p.1.stop ≤ i)).getLast?.map (·.2.kind)

/-- What may stand at an offset that no token covers: a blank, or a line feed where the last primary
    token is one already or there is none. -/
def IsGap (last : Option Kind) (c : Char) : Prop :=
  isBlank c = true ∨ c = '\n' ∧ (last = none ∨ last = some .newline)

/-! ## 2. The slices of pieces -/

/-- The slices of the lexemes among some pieces, from a given offset on. -/
def Piece.slicesFrom (n : Nat) : List Piece → List Slice
  | [] => []
  | space text :: rest => slicesFrom (n + text.length) rest
  | lexeme _ text _ :: rest =>
    ⟨n, n + text.length⟩ :: slicesFrom (n + text.length) rest

/-- The tokens of some pieces, each with its slice. -/
def Piece.laidFrom (file : Nat) (place : Place) (n : Nat) (pieces : List Piece) :
    List (Slice × Token) :=
  (slicesFrom n pieces).zip (tokensFrom file place pieces)

namespace Piece

theorem laidFrom_space (file : Nat) (place : Place) (n : Nat) (text : List Char)
    (rest : List Piece) :
    laidFrom file place n (space text :: rest) =
      laidFrom file (place.after text) (n + text.length) rest := rfl

theorem laidFrom_lexeme (file : Nat) (place : Place) (n : Nat) (kind : Kind) (text : List Char)
    (fault : Option Cause) (rest : List Piece) :
    ∃ t : Token, t.kind = kind ∧ t.text = String.ofList text ∧
      t.span = ⟨place, place.after text, file⟩ ∧
      laidFrom file place n (lexeme kind text fault :: rest) =
        (⟨n, n + text.length⟩, t) :: laidFrom file (place.after text) (n + text.length) rest :=
  ⟨_, rfl, rfl, rfl, rfl⟩

/-- Every token has its slice. -/
theorem map_snd_laidFrom (file : Nat) (place : Place) (n : Nat) (pieces : List Piece) :
    (laidFrom file place n pieces).map (·.2) = tokensFrom file place pieces := by
  induction pieces generalizing place n with
  | nil => rfl
  | cons piece rest ih =>
    cases piece with
    | space text => exact ih _ _
    | lexeme kind text fault =>
      have hrest := ih (place.after text) (n + text.length)
      simp only [laidFrom, slicesFrom, tokensFrom, List.zip_cons_cons, List.map_cons] at hrest ⊢
      rw [hrest]

/-- The slices of pieces that stand behind some text are slices of the whole. -/
theorem isSlice_of_mem_laidFrom {file : Nat} (before : List Char) {pieces : List Piece}
    (hp : ∀ kind text fault, lexeme kind text fault ∈ pieces → text ≠ []) {p : Slice × Token}
    (h : p ∈ laidFrom file (Place.origin.after before) before.length pieces) :
    p.2.IsSlice (before ++ pieces.flatMap chars) file p.1 ∧ before.length ≤ p.1.start := by
  induction pieces generalizing before with
  | nil => exact absurd h List.not_mem_nil
  | cons piece rest ih =>
    have hrest : ∀ kind text fault, lexeme kind text fault ∈ rest → text ≠ [] :=
      fun kind text fault hm => hp kind text fault (List.mem_cons_of_mem _ hm)
    -- the rest of the pieces stands behind the text with this piece added
    have hbehind : p ∈ laidFrom file ((Place.origin.after before).after piece.chars)
          (before.length + piece.chars.length) rest →
        p.2.IsSlice (before ++ (piece :: rest).flatMap chars) file p.1 ∧
          before.length ≤ p.1.start := by
      intro hm
      rw [← Place.after_append, ← List.length_append] at hm
      obtain ⟨hslice, hle⟩ := ih _ hrest hm
      rw [List.length_append] at hle
      rw [List.flatMap_cons, ← List.append_assoc]
      exact ⟨hslice, by omega⟩
    cases piece with
    | space text => exact hbehind h
    | lexeme kind text fault =>
      obtain ⟨t, _, htext, hspan, heq⟩ := laidFrom_lexeme file (Place.origin.after before)
        before.length kind text fault rest
      rw [heq] at h
      rcases List.mem_cons.mp h with rfl | hm
      · have hne : 0 < text.length :=
          List.length_pos_iff.mpr (hp kind text fault List.mem_cons_self)
        have hall : before ++ (lexeme kind text fault :: rest).flatMap chars =
            (before ++ text) ++ rest.flatMap chars := by
          rw [List.flatMap_cons, chars, List.append_assoc]
        have hstart := Place.ofOffset_append before (text ++ rest.flatMap chars)
        have hstop := Place.ofOffset_append (before ++ text) (rest.flatMap chars)
        rw [List.length_append] at hstop
        rw [← List.append_assoc] at hstart
        rw [hall]
        refine ⟨⟨by dsimp only; omega, ?_, ?_, ?_⟩, Nat.le_refl _⟩
        · simp only [List.length_append]
          omega
        · rw [htext, ← List.length_append, List.take_left, List.drop_left]
        · rw [hspan, hstart, hstop, Place.after_append]
      · exact hbehind hm

/-- Slices of pieces lie behind the offset where the pieces start. -/
theorem le_of_mem_laidFrom {file n : Nat} {place : Place} {pieces : List Piece}
    {p : Slice × Token} (h : p ∈ laidFrom file place n pieces) :
    n ≤ p.1.start ∧ p.1.start ≤ p.1.stop := by
  induction pieces generalizing place n with
  | nil => exact absurd h List.not_mem_nil
  | cons piece rest ih =>
    have hbehind : p ∈ laidFrom file (place.after piece.chars) (n + piece.chars.length) rest →
        n ≤ p.1.start ∧ p.1.start ≤ p.1.stop := by
      intro hm
      obtain ⟨hstart, hstop⟩ := ih hm
      exact ⟨Nat.le_trans (Nat.le_add_right _ _) hstart, hstop⟩
    cases piece with
    | space text => exact hbehind h
    | lexeme kind text fault =>
      obtain ⟨t, _, _, _, heq⟩ := laidFrom_lexeme file place n kind text fault rest
      rw [heq] at h
      rcases List.mem_cons.mp h with rfl | hm
      · exact ⟨Nat.le_refl _, Nat.le_add_right _ _⟩
      · exact hbehind hm

/-- The slices of pieces do not overlap. -/
theorem pairwise_laidFrom (file : Nat) (place : Place) (n : Nat) (pieces : List Piece) :
    (laidFrom file place n pieces).Pairwise fun p q => p.1.stop ≤ q.1.start := by
  induction pieces generalizing place n with
  | nil => exact List.Pairwise.nil
  | cons piece rest ih =>
    cases piece with
    | space text => exact ih _ _
    | lexeme kind text fault =>
      obtain ⟨t, _, _, _, heq⟩ := laidFrom_lexeme file place n kind text fault rest
      rw [heq]
      exact List.Pairwise.cons (fun q hq => (le_of_mem_laidFrom hq).1) (ih _ _)

/-! ## 3. What lies in the gaps -/

/-- In front of a token that has stopped, the last primary token is found behind it, or it is the
    token itself, or what came last before it. -/
theorem lastPrimary_cons {slice : Slice} {t : Token} {laid : List (Slice × Token)} {i : Nat}
    (h : slice.stop ≤ i) (ctx : LexContext) :
    (lastPrimary ((slice, t) :: laid) i).or ctx.last =
      (lastPrimary laid i).or (ctx.push t.kind).last := by
  unfold lastPrimary LexContext.push
  rw [List.filter_cons]
  by_cases ht : t.kind.isTrivia
  · simp [ht]
  · simp only [ht, h, decide_true, Bool.not_false, Bool.and_self, if_true, List.getLast?_cons,
      Bool.false_eq_true, if_false, Option.map_some, Option.or_some]
    cases (laid.filter fun p => !p.2.kind.isTrivia && decide (p.1.stop ≤ i)).getLast? with
    | none => rfl
    | some p => rfl

/-- No token stops in front of an offset where the pieces have not started. -/
theorem lastPrimary_of_lt {file n : Nat} {place : Place} {pieces : List Piece} {i : Nat}
    (h : i < n) : lastPrimary (laidFrom file place n pieces) i = none := by
  unfold lastPrimary
  rw [List.filter_eq_nil_iff.mpr]
  · rfl
  · intro p hm
    obtain ⟨hstart, hstop⟩ := le_of_mem_laidFrom hm
    simp only [Bool.and_eq_true, decide_eq_true_eq, not_and, Nat.not_le]
    omega

/-- **What no token covers is a gap**: the recursion of the lexer passes over a character only when
    it is a blank, or a line feed that ends nothing after the last primary token. -/
theorem isGap_of_uncovered {file n : Nat} {place : Place} {ctx : LexContext} {cs : List Char}
    {i : Nat} {c : Char} (hi : n ≤ i) (hc : cs[i - n]? = some c)
    (hu : Uncovered (laidFrom file place n (ofChars ctx cs)) i) :
    IsGap ((lastPrimary (laidFrom file place n (ofChars ctx cs)) i).or ctx.last) c := by
  fun_induction ofChars ctx cs generalizing place n with
  | case1 => simp at hc
  | case2 ctx d rest hd ih =>
    rw [laidFrom_space] at hu ⊢
    by_cases hin : i < n + (d :: rest.takeWhile isBlank).length
    · -- the offset lies among the blanks
      refine Or.inl ?_
      rw [← List.takeWhile_append_dropWhile (p := isBlank) (l := rest), ← List.cons_append,
        List.getElem?_append_left (by omega)] at hc
      rcases List.mem_cons.mp (List.mem_of_getElem? hc) with rfl | hm
      · exact hd
      · exact List.all_eq_true.mp List.all_takeWhile _ hm
    · refine ih (by omega) ?_ hu
      rw [← hc, Nat.sub_add_eq]
      conv_rhs => rw [← List.takeWhile_append_dropWhile (p := isBlank) (l := rest),
        ← List.cons_append, List.getElem?_append_right (by omega)]
  | case3 ctx d rest hd hr ih =>
    rw [laidFrom_space] at hu ⊢
    by_cases hin : i = n
    · -- the offset is that of the line feed, and no token of the rest stands in front of it
      subst hin
      rw [Nat.sub_self, List.getElem?_cons_zero] at hc
      obtain rfl := Option.some.inj hc
      rw [lastPrimary_of_lt (by simp), Option.none_or]
      simp only [LexContext.isRedundantNewline, Bool.and_eq_true, Bool.or_eq_true,
        beq_iff_eq] at hr
      exact Or.inr hr
    · refine ih (by simp only [List.length_singleton]; omega) ?_ hu
      rw [← hc, Nat.sub_add_eq, List.length_singleton]
      rw [List.getElem?_cons, if_neg (by omega)]
  | case4 ctx d rest hd hr found =>
    rename_i ih
    obtain ⟨t, hkind, _, _, heq⟩ := laidFrom_lexeme file place n found.kind
      (d :: rest.take found.extra) found.fault (ofChars (ctx.push found.kind)
        (rest.drop found.extra))
    rw [heq] at hu ⊢
    have hstop : n + (d :: rest.take found.extra).length ≤ i := by
      rcases hu _ List.mem_cons_self with h | h
      · exact absurd h (Nat.not_lt.mpr hi)
      · exact h
    rw [lastPrimary_cons hstop, hkind]
    refine ih hstop ?_ fun p hp => hu p (List.mem_cons_of_mem _ hp)
    rw [← hc, Nat.sub_add_eq]
    conv_rhs => rw [← List.take_append_drop found.extra rest, ← List.cons_append,
      List.getElem?_append_right (by omega)]

/-! ## 4. Faults and the end of the file -/

/-- A fault has the span of the token it was found in. -/
theorem exists_token_of_mem_faultsFrom {file : Nat} {place : Place} {pieces : List Piece}
    {f : Fault} (h : f ∈ faultsFrom file place pieces) :
    ∃ t ∈ tokensFrom file place pieces, f.span = t.span := by
  induction pieces generalizing place with
  | nil => exact absurd h List.not_mem_nil
  | cons piece rest ih =>
    cases piece with
    | space text => exact ih h
    | lexeme kind text fault =>
      have hbehind : f ∈ faultsFrom file (place.after text) rest →
          ∃ t ∈ tokensFrom file place (lexeme kind text fault :: rest), f.span = t.span := by
        intro hm
        obtain ⟨t, ht, hspan⟩ := ih hm
        exact ⟨t, List.mem_cons_of_mem _ ht, hspan⟩
      cases fault with
      | none => exact hbehind h
      | some cause =>
        rcases List.mem_cons.mp h with rfl | hm
        · exact ⟨_, List.mem_cons_self, rfl⟩
        · exact hbehind hm

/-- No token of a text is the end of the file. -/
theorem kind_ne_of_mem_tokensFrom {file : Nat} {place : Place} {pieces : List Piece}
    (hp : ∀ kind text fault, lexeme kind text fault ∈ pieces → kind ≠ .endOfFile) {t : Token}
    (h : t ∈ tokensFrom file place pieces) : t.kind ≠ .endOfFile := by
  obtain ⟨text, fault, hmem, -⟩ := exists_lexeme_of_mem_tokensFrom h
  exact hp _ text fault hmem

theorem kind_ne_of_mem_ofChars {ctx : LexContext} {cs : List Char} {kind : Kind}
    {text : List Char} {fault : Option Cause} (h : lexeme kind text fault ∈ ofChars ctx cs) :
    kind ≠ .endOfFile := by
  obtain ⟨_, _, _, hkind, -⟩ := exists_read_of_mem_ofChars h
  rw [hkind]
  exact Lexeme.kind_read_ne _ _ _

end Piece

/-! ## 5. Merging the two streams -/

/-- The order of a merged list: by line, then by column, the end of the file last. -/
def Token.notBehind (a b : Token) : Bool :=
  if a.span.start = b.span.start then a.kind != .endOfFile || b.kind == .endOfFile
  else decide (a.span.start ≤ b.span.start)

/-- Primary tokens and trivia, merged by their places. -/
def Lexed.merged (lexed : Lexed) : List Token :=
  (lexed.primary ++ lexed.trivia).mergeSort Token.notBehind

namespace Token

theorem notBehind_of_start_lt {a b : Token} (h : a.span.start < b.span.start) :
    a.notBehind b = true := by
  have hne : a.span.start ≠ b.span.start := by
    intro heq
    rw [heq] at h
    exact Place.lt_irrefl _ h
  rw [notBehind, if_neg hne]
  exact decide_eq_true (Place.le_of_lt h)

theorem start_le_of_notBehind {a b : Token} (h : a.notBehind b = true) :
    a.span.start ≤ b.span.start := by
  rw [notBehind] at h
  split at h
  · rename_i heq
    rw [heq]
    exact Place.le_refl _
  · exact of_decide_eq_true h

theorem notBehind_trans (a b c : Token) (h : a.notBehind b = true) (k : b.notBehind c = true) :
    a.notBehind c = true := by
  have hab := start_le_of_notBehind h
  have hbc := start_le_of_notBehind k
  by_cases hac : a.span.start = c.span.start
  · -- all three start at one place, so the kinds decide
    have heq : a.span.start = b.span.start := Place.le_antisymm hab (hac ▸ hbc)
    rw [notBehind, if_pos heq] at h
    rw [notBehind, if_pos (heq.symm.trans hac)] at k
    rw [notBehind, if_pos hac]
    simp only [Bool.or_eq_true, bne_iff_ne, beq_iff_eq] at h k ⊢
    rcases h with h | h
    · exact Or.inl h
    · exact Or.inr (k.resolve_left (· h))
  · rw [notBehind, if_neg hac]
    exact decide_eq_true (Place.le_trans hab hbc)

theorem notBehind_total (a b : Token) : (a.notBehind b || b.notBehind a) = true := by
  by_cases h : a.span.start = b.span.start
  · rw [notBehind, if_pos h, notBehind, if_pos h.symm]
    cases ha : a.kind == .endOfFile <;> simp [bne, ha]
  · rw [notBehind, if_neg h, notBehind, if_neg (Ne.symm h), Bool.or_eq_true]
    exact (Place.le_total _ _).imp decide_eq_true decide_eq_true

end Token

/-- **Merged by their places, primary tokens and trivia are the tokens in the order of the text.** -/
theorem Lexed.merged_ofText (source : String) (file : Nat) :
    (ofText source file).merged = (ofText source file).tokens := by
  have horder := inOrder_tokens source file
  unfold merged primary trivia
  generalize (ofText source file).tokens = tokens at horder ⊢
  have hperm : ((tokens.filter (!·.kind.isTrivia) ++ tokens.filter (·.kind.isTrivia)).mergeSort
      Token.notBehind).Perm tokens := by
    refine (List.mergeSort_perm _ _).trans (List.perm_append_comm.trans ?_)
    exact List.filter_append_perm (·.kind.isTrivia) tokens
  have hsorted := List.pairwise_mergeSort Token.notBehind_trans Token.notBehind_total
    (tokens.filter (!·.kind.isTrivia) ++ tokens.filter (·.kind.isTrivia))
  have hsorted' : tokens.Pairwise fun a b => a.notBehind b = true :=
    horder.imp fun h => Token.notBehind_of_start_lt h.1
  refine List.Perm.eq_of_pairwise (fun a b ha hb hab hba => ?_) hsorted hsorted' hperm
  -- tokens in order that are not behind each other start at one place, so they are the same
  have hstart := Place.le_antisymm (Token.start_le_of_notBehind hab)
    (Token.start_le_of_notBehind hba)
  rcases horder.before_or (hperm.mem_iff.mp ha) hb with heq | hbefore | hbefore
  · exact heq
  · exact absurd (hstart ▸ hbefore.1) (Place.lt_irrefl _)
  · exact absurd (hstart ▸ hbefore.1) (Place.lt_irrefl _)

/-! ## 6. The tokens of a text -/

/-- What the tokens of a text have to be, each told with its slice, for no character to be lost. -/
structure Lexed.Lossless (lexed : Lexed) (cs : List Char) (file : Nat)
    (laid : List (Slice × Token)) : Prop where
  /-- Merged by their places, the tokens are those with a slice, then the end of the file. -/
  merged : lexed.merged = laid.map (·.2) ++
    [.endAt ⟨Place.ofOffset cs cs.length, Place.ofOffset cs cs.length, file⟩]
  /-- The primary tokens end with the end of the file, and nothing else is it. -/
  primary : lexed.primary = (laid.map (·.2)).filter (!·.kind.isTrivia) ++
    [.endAt ⟨Place.ofOffset cs cs.length, Place.ofOffset cs cs.length, file⟩]
  trivia : lexed.trivia = (laid.map (·.2)).filter (·.kind.isTrivia)
  oneEnd : ∀ p ∈ laid, p.2.kind ≠ .endOfFile
  slices : ∀ p ∈ laid, p.2.IsSlice cs file p.1
  disjoint : laid.Pairwise fun p q => p.1.stop ≤ q.1.start
  ordered : laid.Pairwise fun p q => p.2.span.start < q.2.span.start
  /-- Nothing but blanks and line feeds that end nothing lies outside of the slices. -/
  gaps : ∀ i c, cs[i]? = some c → Uncovered laid i → IsGap (lastPrimary laid i) c
  faults : ∀ f ∈ lexed.faults, ∃ p ∈ laid, f.span = p.2.span

/-- The tokens of a text but the end of the file, each with its slice. -/
def Lexed.laid (source : String) (file : Nat) : List (Slice × Token) :=
  Piece.laidFrom file .origin 0 (Piece.ofChars .initial source.toList)

namespace Lexed

variable (source : String) (file : Nat)

theorem map_snd_laid : (laid source file).map (·.2) =
    Piece.tokensFrom file .origin (Piece.ofChars .initial source.toList) :=
  Piece.map_snd_laidFrom _ _ _ _

/-- The tokens of a text are those with a slice, then the end of the file. -/
theorem tokens_ofText : (ofText source file).tokens = (laid source file).map (·.2) ++
    [.endAt ⟨Place.ofOffset source.toList source.toList.length,
      Place.ofOffset source.toList source.toList.length, file⟩] := by
  have hstop := Place.ofOffset_append source.toList []
  rw [List.append_nil] at hstop
  rw [hstop, map_snd_laid]
  rfl

theorem isSlice_of_mem_laid {p : Slice × Token} (hp : p ∈ laid source file) :
    p.2.IsSlice source.toList file p.1 := by
  have h := (Piece.isSlice_of_mem_laidFrom []
    (fun _ _ _ h => Piece.ne_nil_of_mem_ofChars h) hp).1
  rwa [List.nil_append, Piece.flatMap_chars_ofChars] at h

/-- Every token of a text starts and stops at the place of an offset. -/
theorem exists_offsets {t : Token} (ht : t ∈ (ofText source file).tokens) : ∃ start stop,
    t.span = ⟨Place.ofOffset source.toList start, Place.ofOffset source.toList stop, file⟩ := by
  rw [tokens_ofText] at ht
  rcases List.mem_append.mp ht with ht | ht
  · obtain ⟨p, hp, rfl⟩ := List.mem_map.mp ht
    exact ⟨p.1.start, p.1.stop, (isSlice_of_mem_laid source file hp).span⟩
  · rw [List.mem_singleton.mp ht]
    exact ⟨_, _, rfl⟩

/-- **No character of a text is lost**: its tokens are non-empty slices of it, one strictly behind
    the other, whose spans are the places of their ends, and what they leave out is space. -/
theorem lossless : ∃ laid, (ofText source file).Lossless source.toList file laid := by
  refine ⟨laid source file, ?_⟩
  constructor
  case merged => rw [merged_ofText, tokens_ofText]
  case primary =>
    rw [Lexed.primary, tokens_ofText, List.filter_append]
    rfl
  case trivia =>
    rw [Lexed.trivia, tokens_ofText, List.filter_append]
    exact List.append_nil _
  case oneEnd =>
    intro p hp
    have hmem := List.mem_map_of_mem (f := (·.2)) hp
    rw [map_snd_laid] at hmem
    exact Piece.kind_ne_of_mem_tokensFrom (fun _ _ _ h => Piece.kind_ne_of_mem_ofChars h) hmem
  case slices => exact fun p hp => isSlice_of_mem_laid source file hp
  case disjoint => exact Piece.pairwise_laidFrom _ _ _ _
  case ordered =>
    have horder : ((laid source file).map (·.2)).Pairwise Token.Before := by
      rw [map_snd_laid]
      exact Piece.inOrder_tokensFrom fun _ _ _ h => Piece.ne_nil_of_mem_ofChars h
    exact (List.pairwise_map.mp horder).imp fun h => h.1
  -- each character outside the tokens was passed over by the lexer, and it passes over space only
  case gaps =>
    intro i c hc hu
    have h := Piece.isGap_of_uncovered (Nat.zero_le i) hc hu
    have hinitial : LexContext.initial.last = none := rfl
    rwa [hinitial, Option.or_none] at h
  case faults =>
    intro f hf
    obtain ⟨t, ht, hspan⟩ := Piece.exists_token_of_mem_faultsFrom hf
    rw [← map_snd_laid] at ht
    obtain ⟨p, hp, rfl⟩ := List.mem_map.mp ht
    exact ⟨p, hp, hspan⟩

end Lexed

end BasicCheck
