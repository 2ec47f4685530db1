import BasicCheck.Proofs.Parse.Steps
import BasicCheck.Proofs.Symbol.Kept

/-!
# States that lie behind others

Reading goes on from one state to another, whatever the tokens are: some of them are read, faults are
recorded behind those that are already known, the table of symbols keeps what it has, and every loop
that was entered has been left (`Past`). What matters most on the way is whether anything was
consumed (`Consumes`), which makes the state smaller (**`Consumes.size_lt`**), and where the tokens
stand that were read first (`Opens`) or anywhere between (`Stands`).

None of this asks for tokens in order or for a token at the end; a state need only be `Regular`.
-/

namespace BasicCheck

namespace Parse.State

/-- What lies behind all tokens ends the file, and a token of which half is left is the `>=` that was
    read last. -/
structure Regular (s : State) : Prop where
  ended : s.eof.kind = .endOfFile
  half : ∀ {whole}, s.split = some whole →
    s.last = some whole ∧ whole.kind = .greaterEqual ∧ whole.text = ">="

/-- No error has been recorded. -/
def Clean (s : State) : Prop := ∀ d ∈ s.diagnostics.toList, d.isError = false

/-- The state within a further loop. -/
def enter (s : State) : State := { s with loopDepth := s.loopDepth + 1 }

/-- The state behind the innermost loop. -/
def leave (s : State) : State := { s with loopDepth := s.loopDepth - 1 }

theorem advance_fst (s : State) : s.advance.1 = s.current := by
  unfold advance current
  split
  · rfl
  · split
    · rename_i hrest
      rw [hrest]
      rfl
    · rename_i hrest
      rw [hrest]
      rfl

/-- A step forward leaves the table of symbols as it is. -/
theorem symbols_advance (s : State) : s.advance.2.symbols = s.symbols := by
  unfold advance
  split
  · rfl
  · split <;> rfl

theorem Regular.rest_of_isWord {s : State} (hs : s.Regular) (hk : s.current.kind.IsWord) :
    s.split = none ∧ s.rest.tokens = s.current :: s.rest.tokens.tail :=
  State.rest_of_isWord hs.ended hk

/-- A step forward over a word. -/
theorem Regular.advance_of_isWord {s : State} (hs : s.Regular) (hk : s.current.kind.IsWord) :
    s.advance.2 = { s with rest := s.rest.tail, last := some s.current } := by
  obtain ⟨hsplit, hrest⟩ := hs.rest_of_isWord hk
  unfold advance
  rw [hsplit, hrest]

/-- A word that comes next is what was read last behind a step forward. -/
theorem Regular.previous_advance {s : State} (hs : s.Regular) (hk : s.current.kind.IsWord) :
    s.advance.2.previous = s.current := by
  rw [hs.advance_of_isWord hk]
  unfold previous
  rw [(hs.rest_of_isWord hk).1]
  rfl

/-- A state in which no token is half read need only have the end behind all others. -/
theorem Regular.of_whole {s : State} (hended : s.eof.kind = .endOfFile) (hwhole : s.split = none) :
    s.Regular :=
  ⟨hended, fun hsplit => by
    rw [hwhole] at hsplit
    cases hsplit⟩

/-- No half of a token is left behind a step forward. -/
theorem split_advance (s : State) : s.advance.2.split = none := by
  unfold advance
  cases hsplit : s.split with
  | some whole => rfl
  | none =>
    cases hrest : s.rest.tokens with
    | nil => exact hsplit
    | cons t rest => rfl

end Parse.State

namespace Grammar

open Parse

variable {o s u v : State} {t : Token}

/-! ## 1. What is read on the way -/

/-- Some tokens are read on the way from one state to another. -/
structure Reads (s : State) (read : List Token) (u : State) : Prop where
  tokens : s.rest.tokens = read ++ u.rest.tokens
  last : u.last = read.getLast?.or s.last
  split : read = [] → u.split = s.split ∨ u.split = none

namespace Reads

variable {read more : List Token}

theorem refl (s : State) : Reads s [] s := ⟨rfl, rfl, fun _ => Or.inl rfl⟩

theorem trans (h : Reads s read u) (g : Reads u more v) : Reads s (read ++ more) v where
  tokens := by rw [h.tokens, g.tokens, List.append_assoc]
  last := by rw [g.last, h.last, List.getLast?_append, Option.or_assoc]
  split hnone := by
    obtain ⟨rfl, rfl⟩ := List.append_eq_nil_iff.mp hnone
    rcases g.split rfl with hsame | hwhole
    · rw [hsame]
      exact h.split rfl
    · exact Or.inr hwhole

/-- What is read is told by what is left. -/
theorem eq (h : Reads s read u) (hmore : s.rest.tokens = more ++ u.rest.tokens) : more = read :=
  List.append_cancel_right (hmore.symm.trans h.tokens)

/-- A word that comes next is read by a step forward. -/
theorem advance (hs : s.Regular) (hk : s.current.kind.IsWord) : Reads s [s.current] s.advance.2 := by
  rw [hs.advance_of_isWord hk]
  exact ⟨(hs.rest_of_isWord hk).2, rfl, fun hnil => absurd hnil (List.cons_ne_nil _ _)⟩

end Reads

/-- What a step forward reads is the token that comes next, if it is a whole one. -/
theorem forall_mem_of_advance {P : Kind → Prop} (hk : P s.current.kind) {read : List Token}
    (htokens : s.rest.tokens = read ++ s.advance.2.rest.tokens) : ∀ t ∈ read, P t.kind := by
  unfold State.current at hk
  unfold State.advance at htokens
  cases hsplit : s.split with
  | some whole =>
    rw [hsplit] at htokens
    rw [(Reads.refl s).eq htokens]
    exact List.forall_mem_nil _
  | none =>
    rw [hsplit] at hk htokens
    cases hrest : s.rest.tokens with
    | nil =>
      rw [hrest] at htokens
      have hnil : read = [] := by simpa [hrest] using htokens
      rw [hnil]
      exact List.forall_mem_nil _
    | cons t rest =>
      rw [hrest] at hk htokens
      have hone : read = [t] := by
        have hall : [t] ++ rest = read ++ rest := by simpa [Unread.tail, hrest] using htokens
        exact (List.append_cancel_right hall).symm
      rw [hone]
      exact List.forall_mem_singleton.mpr hk

/-! ## 2. Behind a state -/

/-- One state lies behind another. -/
structure Past (s u : State) : Prop where
  eof : u.eof = s.eof
  depth : u.loopDepth = s.loopDepth
  reads : ∃ read, Reads s read u
  regular : s.Regular → u.Regular
  faults : s.diagnostics.toList <+: u.diagnostics.toList
  symbols : s.symbols.Follows u.symbols
  begun : s.begun ≤ u.begun

namespace Past

theorem refl (s : State) : Past s s :=
  ⟨rfl, rfl, ⟨[], .refl s⟩, id, List.prefix_refl _, .refl _, Nat.le_refl _⟩

theorem trans (h : Past s u) (g : Past u v) : Past s v where
  eof := g.eof.trans h.eof
  depth := g.depth.trans h.depth
  reads := by
    obtain ⟨read, hread⟩ := h.reads
    obtain ⟨more, hmore⟩ := g.reads
    exact ⟨read ++ more, hread.trans hmore⟩
  regular hs := g.regular (h.regular hs)
  faults := h.faults.trans g.faults
  symbols := h.symbols.trans g.symbols
  begun := Nat.le_trans h.begun g.begun

/-- What is free of errors at the end was so all the way. -/
theorem clean (h : Past s u) (hu : u.Clean) : s.Clean := fun d hd => hu d (h.faults.subset hd)

theorem suffix (h : Past s u) : u.rest.tokens <:+ s.rest.tokens := by
  obtain ⟨read, hread⟩ := h.reads
  exact ⟨read, hread.tokens.symm⟩

theorem subset {tokens : List Token} (h : Past s u) (hs : s.rest.tokens ⊆ tokens) :
    u.rest.tokens ⊆ tokens :=
  List.Subset.trans h.suffix.subset hs

theorem count_le (h : Past s u) : u.rest.count ≤ s.rest.count := by
  rw [u.rest.count_eq, s.rest.count_eq]
  exact h.suffix.length_le

/-- A step forward, which stays at the end of the file. -/
theorem advance (s : State) : Past s s.advance.2 := by
  unfold State.advance
  cases hsplit : s.split with
  | some whole =>
    exact ⟨rfl, rfl, ⟨[], rfl, rfl, fun _ => Or.inr rfl⟩, fun hs => .of_whole hs.ended rfl,
      List.prefix_refl _, .refl _, Nat.le_refl _⟩
  | none =>
    cases hrest : s.rest.tokens with
    | nil => exact refl s
    | cons t rest =>
      have hread : Reads s [t] { s with rest := s.rest.tail, last := some t, split := none } :=
        ⟨by simp [hrest, Unread.tail], rfl, fun hnil => absurd hnil (List.cons_ne_nil _ _)⟩
      exact ⟨rfl, rfl, ⟨[t], hread⟩, fun hs => .of_whole hs.ended rfl, List.prefix_refl _, .refl _,
        Nat.le_refl _⟩

/-- Only something that is recorded tells two states apart. -/
theorem recorded {diagnostics : Array Diagnostic} {regions : Array Region}
    (hfaults : s.diagnostics.toList <+: diagnostics.toList) :
    Past s { s with diagnostics, regions } :=
  ⟨rfl, rfl, ⟨[], rfl, rfl, fun _ => Or.inl rfl⟩, fun hs => ⟨hs.ended, hs.half⟩, hfaults, .refl _,
    Nat.le_refl _⟩

/-- Only the table of symbols has changed. -/
theorem noted {symbols : SymbolTable} (h : s.symbols.Follows symbols) : Past s { s with symbols } :=
  ⟨rfl, rfl, ⟨[], rfl, rfl, fun _ => Or.inl rfl⟩, fun hs => ⟨hs.ended, hs.half⟩,
    List.prefix_refl _, h, Nat.le_refl _⟩

/-- Only the record of the run has grown. -/
theorem kept {recoveries : Array Recovery} {begun : Nat} (h : s.begun ≤ begun) :
    Past s { s with recoveries, begun } :=
  ⟨rfl, rfl, ⟨[], rfl, rfl, fun _ => Or.inl rfl⟩, fun hs => ⟨hs.ended, hs.half⟩,
    List.prefix_refl _, .refl _, h⟩

/-- What is done within a loop is done between the state before it and the state behind it. -/
theorem leave (h : Past s.enter u) : Past s u.leave := by
  obtain ⟨read, hread⟩ := h.reads
  refine ⟨h.eof, ?_, ⟨read, hread.tokens, hread.last, hread.split⟩, fun hs => ?_, h.faults,
    h.symbols, h.begun⟩
  · show u.loopDepth - 1 = s.loopDepth
    rw [h.depth]
    exact Nat.add_sub_cancel _ 1
  · have hu := h.regular ⟨hs.ended, hs.half⟩
    exact ⟨hu.ended, hu.half⟩

end Past

/-- Nothing is read: the same token comes next, and the same was read last. -/
structure Stays (s u : State) : Prop where
  rest : u.rest = s.rest
  last : u.last = s.last
  split : u.split = s.split
  eof : u.eof = s.eof

theorem Stays.previous (h : Stays s u) : u.previous = s.previous := by
  unfold State.previous State.current
  rw [h.split, h.last, h.rest, h.eof]

/-! ## 3. Progress -/

/-- At least one token is consumed, or the `=` that was left of a token `>=`. -/
def Consumes (s u : State) : Prop :=
  ∃ read, s.rest.tokens = read ++ u.rest.tokens ∧
    (read ≠ [] ∨ s.split.isSome ∧ u.split = none)

namespace Consumes

/-- **Whatever is consumed makes the state smaller.** -/
theorem size_lt (h : Consumes s u) : u.size < s.size := by
  obtain ⟨read, htokens, hread⟩ := h
  have hcount : s.rest.count = read.length + u.rest.count := by
    rw [s.rest.count_eq, htokens, List.length_append, u.rest.count_eq]
  unfold State.size
  rcases hread with hne | ⟨hs, hu⟩
  · have hpos := List.length_pos_iff.mpr hne
    split <;> split <;> omega
  · rw [if_pos hs, hu]
    simp only [Option.isSome_none, Bool.false_eq_true, if_false]
    omega

theorem after (h : Past s u) (g : Consumes u v) : Consumes s v := by
  obtain ⟨read, hread⟩ := h.reads
  obtain ⟨more, hmore, hconsumed⟩ := g
  refine ⟨read ++ more, by rw [hread.tokens, hmore, List.append_assoc], ?_⟩
  rcases hconsumed with hne | ⟨hu, hv⟩
  · exact Or.inl fun hnil => hne (List.append_eq_nil_iff.mp hnil).2
  · by_cases hnil : read = []
    · rcases hread.split hnil with hsame | hwhole
      · rw [hsame] at hu
        exact Or.inr ⟨hu, hv⟩
      · rw [hwhole] at hu
        cases hu
    · exact Or.inl fun hall => hnil (List.append_eq_nil_iff.mp hall).1

theorem before (h : Consumes s u) (g : Past u v) : Consumes s v := by
  obtain ⟨read, htokens, hconsumed⟩ := h
  obtain ⟨more, hmore⟩ := g.reads
  refine ⟨read ++ more, by rw [htokens, hmore.tokens, List.append_assoc], ?_⟩
  rcases hconsumed with hne | ⟨hs, hu⟩
  · exact Or.inl fun hnil => hne (List.append_eq_nil_iff.mp hnil).1
  · by_cases hnil : more = []
    · rcases hmore.split hnil with hsame | hwhole
      · rw [hu] at hsame
        exact Or.inr ⟨hs, hsame⟩
      · exact Or.inr ⟨hs, hwhole⟩
    · exact Or.inl fun hall => hnil (List.append_eq_nil_iff.mp hall).2

/-- A step forward consumes something unless the file ends. -/
theorem advance (hs : s.Regular) (hk : s.current.kind ≠ .endOfFile) :
    Consumes s s.advance.2 := by
  unfold State.advance
  cases hsplit : s.split with
  | some whole => exact ⟨[], rfl, Or.inr ⟨by rw [hsplit]; rfl, rfl⟩⟩
  | none =>
    cases hrest : s.rest.tokens with
    | nil =>
      refine absurd ?_ hk
      unfold State.current
      rw [hsplit, hrest]
      exact hs.ended
    | cons t rest => exact ⟨[t], by simp [hrest, Unread.tail], Or.inl (List.cons_ne_nil _ _)⟩

/-- Where nothing was consumed the same token comes next. -/
theorem of_current_ne (h : Past s u) (hne : u.current ≠ s.current) : Consumes s u := by
  obtain ⟨read, hread⟩ := h.reads
  by_cases hnil : read = []
  · subst hnil
    have htokens : s.rest.tokens = u.rest.tokens := hread.tokens
    rcases hread.split rfl with hsame | hwhole
    · refine absurd ?_ hne
      unfold State.current
      rw [hsame, h.eof, htokens]
    · cases hsplit : s.split with
      | some whole => exact ⟨[], htokens, Or.inr ⟨by rw [hsplit]; rfl, hwhole⟩⟩
      | none =>
        refine absurd ?_ hne
        unfold State.current
        rw [hwhole, hsplit, h.eof, htokens]
  · exact ⟨read, hread.tokens, Or.inl hnil⟩

end Consumes

/-! ## 4. Tokens on the way -/

/-- A word that comes next is read first. -/
structure Opens (s : State) (t : Token) (u : State) : Prop where
  next : s.current = t
  word : t.kind.IsWord
  behind : Past s.advance.2 u

namespace Opens

theorem past (h : Opens s t u) : Past s u := (Past.advance s).trans h.behind

theorem before (h : Opens s t u) (g : Past u v) : Opens s t v :=
  ⟨h.next, h.word, h.behind.trans g⟩

/-- Fewer tokens are left behind a word. -/
theorem count_lt (h : Opens s t u) (hs : s.Regular) : u.rest.count < s.rest.count := by
  have hword : s.current.kind.IsWord := h.next ▸ h.word
  have hlength := congrArg List.length (hs.rest_of_isWord hword).2
  have hle := h.behind.count_le
  rw [hs.advance_of_isWord hword] at hle
  have htail : s.rest.tail.count = s.rest.count - 1 := rfl
  rw [List.length_cons, ← s.rest.count_eq] at hlength
  dsimp only at hle
  omega

theorem consumes (h : Opens s t u) (hs : s.Regular) : Consumes s u := by
  have hk : s.current.kind ≠ .endOfFile := by
    rw [h.next]
    exact h.word.1
  exact (Consumes.advance hs hk).before h.behind

end Opens

/-- A word that comes next is read first if anything is consumed, but half of a `>=` may be left. -/
theorem Opens.of_consumes (hs : s.Regular) (h : Past s u) (hc : Consumes s u)
    (hword : s.current.kind.IsWord) (hk : s.current.kind ≠ .greaterEqual) :
    Opens s s.current u := by
  obtain ⟨hsplit, hrest⟩ := hs.rest_of_isWord hword
  have hadvance := hs.advance_of_isWord hword
  obtain ⟨read, hread⟩ := h.reads
  obtain ⟨read', htokens, hconsumed⟩ := hc
  rw [hread.eq htokens] at hconsumed
  -- no half of a token was left over, so the first thing consumed is the word
  cases read with
  | nil =>
    rcases hconsumed with hne | ⟨hsome, -⟩
    · exact absurd rfl hne
    · rw [hsplit] at hsome
      cases hsome
  | cons t more =>
    have hall : s.current :: s.rest.tokens.tail = t :: (more ++ u.rest.tokens) :=
      hrest.symm.trans hread.tokens
    obtain ⟨rfl, htail⟩ := List.cons.inj hall
    refine ⟨rfl, hword, ?_⟩
    rw [hadvance]
    refine ⟨h.eof, h.depth, ⟨more, htail, ?_, fun hnil => Or.inr ?_⟩, fun _ => h.regular hs,
      h.faults, h.symbols, h.begun⟩
    · rw [hread.last]
      cases more with
      | nil => rfl
      | cons t' more' => rfl
    · -- what is left a half of is a `>=` and was read last, but the word is none
      subst hnil
      cases hhalf : u.split with
      | none => rfl
      | some whole =>
        obtain ⟨hlast, hkind, -⟩ := (h.regular hs).half hhalf
        rw [hread.last] at hlast
        obtain rfl : s.current = whole := Option.some.inj hlast
        exact absurd hkind hk

/-- A word with a given span is read somewhere on the way. -/
def Stands (span : Span) (s u : State) : Prop :=
  ∃ m t, Past s m ∧ Opens m t u ∧ t.span = span

namespace Stands

variable {span : Span}

theorem of_opens (h : Opens s t u) : Stands t.span s u := ⟨s, t, .refl s, h, rfl⟩

theorem after (h : Past s u) (g : Stands span u v) : Stands span s v := by
  obtain ⟨m, t, hm, hopens, hspan⟩ := g
  exact ⟨m, t, h.trans hm, hopens, hspan⟩

theorem before (h : Stands span s u) (g : Past u v) : Stands span s v := by
  obtain ⟨m, t, hm, hopens, hspan⟩ := h
  exact ⟨m, t, hm, hopens.before g, hspan⟩

theorem past (h : Stands span s u) : Past s u := by
  obtain ⟨m, t, hm, hopens, -⟩ := h
  exact hm.trans hopens.past

theorem consumes (h : Stands span s u) (hs : s.Regular) : Consumes s u := by
  obtain ⟨m, t, hm, hopens, -⟩ := h
  exact Consumes.after hm (hopens.consumes (hm.regular hs))

/-- Fewer tokens are left behind a word. -/
theorem count_lt (h : Stands span s u) (hs : s.Regular) : u.rest.count < s.rest.count := by
  obtain ⟨m, t, hm, hopens, -⟩ := h
  exact Nat.lt_of_lt_of_le (hopens.count_lt (hm.regular hs)) hm.count_le

end Stands

end Grammar

end BasicCheck
