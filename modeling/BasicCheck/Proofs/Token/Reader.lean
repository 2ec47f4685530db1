import BasicCheck.Token.Lexed

/-!
# What the readers of the lexer find

A lexeme is found by one of twelve readers (`Lexeme.of_read`). From this follows what every lexeme
has in common, whichever reader found it: it is never the end of the file (`Lexeme.kind_read_ne`),
and a name holds no line feed (`Lexeme.notMem_newline_of_isName`). What holds of all lexemes holds
of the tokens of a text; so the names of a text lie on one line each (**`Lexed.onLine_of_isName`**).
-/

namespace BasicCheck

/-! ## 1. One of twelve readers -/

namespace Lexeme

theorem of_ite {motive : Lexeme → Prop} {p : Prop} [Decidable p] {a b : Lexeme}
    (ha : p → motive a) (hb : motive b) : motive (if p then a else b) := by
  by_cases h : p
  · rw [if_pos h]
    exact ha h
  · rw [if_neg h]
    exact hb

/-- What holds of a line feed and of whatever each reader finds holds of every lexeme. -/
theorem of_read {motive : Lexeme → Prop} {atStart : Bool} {first : Char} {rest : List Char}
    (newline : motive ⟨.newline, 0, none⟩)
    (block : motive (blockComment rest))
    (line : motive (lineComment rest))
    (literal : first = '"' ∨ first = '\'' → motive (literal first rest))
    (bytes : motive (byteString rest))
    (hex : motive (hexNumber first rest))
    (number : motive (number first rest))
    (word : Text.isAlphabetic first ∨ first = '_' → motive (word first rest))
    (name : first = '@' → motive (atName rest))
    (directive : motive (directive rest))
    (continuation : motive (continuation rest))
    (operator : motive (operator first rest)) : motive (read atStart first rest) := by
  unfold read
  apply of_ite fun _ => newline
  apply of_ite fun _ => block
  apply of_ite fun _ => line
  apply of_ite literal
  apply of_ite fun _ => bytes
  apply of_ite fun _ => hex
  apply of_ite fun _ => number
  apply of_ite word
  apply of_ite name
  apply of_ite fun _ => directive
  exact of_ite (fun _ => continuation) operator

/-! ## 2. No text is the end of the file -/

/-- What holds of every row of a table of kinds holds of what is looked up there. -/
theorem of_lookup {α : Type} [BEq α] [LawfulBEq α] {p : Kind → Prop} {table : List (α × Kind)}
    (h : ∀ row ∈ table, p row.2) {key : α} {kind : Kind} (hk : table.lookup key = some kind) :
    p kind := by
  obtain ⟨before, behind, rfl, _⟩ := List.lookup_eq_some_iff.mp hk
  exact h _ (List.mem_append_right _ List.mem_cons_self)

/-- The kind of a word is that of a name, or stands in one of the two tables of words. -/
theorem kind_word (first : Char) (rest : List Char) {p : Kind → Prop} (ident : p .ident)
    (words : ∀ row ∈ Kind.words, p row.2) (underscore : ∀ row ∈ Kind.underscoreWords, p row.2) :
    p (word first rest).kind := by
  unfold word
  dsimp only
  split
  · split
    · exact of_lookup underscore ‹_›
    · exact ident
  · cases h : Kind.ofWord? (String.ofList (first :: rest.takeWhile isNameChar)) with
    | none => exact ident
    | some kind => exact of_lookup words h

/-- The kind of an operator stands in one of the two tables of signs, or is unknown. -/
theorem kind_operator (first : Char) (rest : List Char) {p : Kind → Prop} (unknown : p .unknown)
    (single : ∀ row ∈ signs, p row.2) (double : ∀ row ∈ doubleSigns, p row.2) :
    p (operator first rest).kind := by
  unfold operator
  split
  · rename_i kind h
    cases rest with
    | nil => cases h
    | cons next more =>
      rw [doubleSign?] at h
      split at h
      · cases h
      · exact of_lookup double h
  · split
    · exact of_lookup single ‹_›
    · exact unknown

/-- No text is read as the end of the file. -/
theorem kind_read_ne (atStart : Bool) (first : Char) (rest : List Char) :
    (read atStart first rest).kind ≠ .endOfFile := by
  apply of_read (motive := fun found => found.kind ≠ .endOfFile)
  case literal => exact fun _ => Kind.noConfusion
  case word =>
    intro _
    exact kind_word first rest (p := (· ≠ .endOfFile)) (by decide) (by decide) (by decide)
  case operator =>
    exact kind_operator first rest (p := (· ≠ .endOfFile)) (by decide) (by decide) (by decide)
  case name =>
    intro _
    unfold atName
    dsimp only
    split <;> exact Kind.noConfusion
  case directive =>
    unfold directive
    dsimp only
    split <;> exact Kind.noConfusion
  case continuation =>
    unfold continuation
    dsimp only
    split
    · exact Kind.noConfusion
    · split <;> exact Kind.noConfusion
  all_goals exact Kind.noConfusion

end Lexeme

/-! ## 3. Names lie on one line -/

/-- Kinds that a name may be of: names proper, system variables, and keywords where they are names.
    -/
def Kind.IsName (kind : Kind) : Prop :=
  kind = .ident ∨ kind = .systemVariable ∨ kind.isKeyword

instance (kind : Kind) : Decidable kind.IsName := inferInstanceAs (Decidable (_ ∨ _ ∨ _))

namespace Lexeme

/-- What is read as a name, was read as a word or behind an `@`. -/
theorem of_isName {motive : Lexeme → Prop} {atStart : Bool} {first : Char} {rest : List Char}
    (hword : Text.isAlphabetic first ∨ first = '_' → motive (word first rest))
    (hname : first = '@' → motive (atName rest)) :
    (read atStart first rest).kind.IsName → motive (read atStart first rest) := by
  apply of_read (motive := fun found => found.kind.IsName → motive found)
  case word => exact fun hfirst _ => hword hfirst
  case name => exact fun hfirst _ => hname hfirst
  case literal =>
    intro _
    rintro (h | h | h) <;> cases h
  case operator =>
    have hkind : ¬ (operator first rest).kind.IsName :=
      kind_operator first rest (p := (¬ ·.IsName)) (by decide) (by decide) (by decide)
    exact fun h => absurd h hkind
  case directive =>
    unfold directive
    dsimp only
    split <;> rintro (h | h | h) <;> cases h
  case continuation =>
    unfold continuation
    dsimp only
    split
    · rintro (h | h | h) <;> cases h
    · split <;> rintro (h | h | h) <;> cases h
  all_goals rintro (h | h | h) <;> cases h

/-- A word takes all characters that a name may go on with. -/
theorem take_extra_word (first : Char) (rest : List Char) :
    rest.take (word first rest).extra = rest.takeWhile isNameChar := by
  have hextra : (word first rest).extra = (rest.takeWhile isNameChar).length := by
    unfold word
    dsimp only
    split
    · split <;> rfl
    · rfl
  rw [hextra]
  exact (List.prefix_iff_eq_take.mp (List.takeWhile_prefix isNameChar)).symm

/-- A variable of the system takes them, too; an `@` by itself takes none. -/
theorem take_extra_atName (rest : List Char) (h : (atName rest).kind.IsName) :
    Builtin.isSystemVariable (String.ofList ('@' :: rest.takeWhile isNameChar)) = true ∧
      (atName rest).kind = .systemVariable ∧
      rest.take (atName rest).extra = rest.takeWhile isNameChar := by
  unfold atName at h ⊢
  dsimp only at h ⊢
  split
  · rename_i hsystem
    exact ⟨hsystem, rfl, (List.prefix_iff_eq_take.mp (List.takeWhile_prefix isNameChar)).symm⟩
  · rename_i hno
    rw [if_neg hno] at h
    rcases h with h | h | h <;> cases h

/-- The characters that a name goes on with hold no line feed. -/
theorem notMem_newline_nameChars (rest : List Char) : '\n' ∉ rest.takeWhile isNameChar := by
  intro h
  have hname : isNameChar '\n' = true := List.all_eq_true.mp List.all_takeWhile _ h
  exact absurd hname (by decide)

/-- Behind the first character of a name there is no line feed. -/
theorem notMem_newline_extra (atStart : Bool) (first : Char) (rest : List Char)
    (h : (read atStart first rest).kind.IsName) :
    '\n' ∉ rest.take (read atStart first rest).extra := by
  refine of_isName (motive := fun found => found.kind.IsName → '\n' ∉ rest.take found.extra)
    (fun _ _ => ?_) (fun _ hname => ?_) h h
  · rw [take_extra_word]
    exact notMem_newline_nameChars rest
  · obtain ⟨-, -, htake⟩ := take_extra_atName rest hname
    rw [htake]
    exact notMem_newline_nameChars rest

/-- **A name holds no line feed.** -/
theorem notMem_newline_of_isName (atStart : Bool) (first : Char) (rest : List Char)
    (h : (read atStart first rest).kind.IsName) :
    '\n' ∉ first :: rest.take (read atStart first rest).extra := by
  intro hm
  rcases List.mem_cons.mp hm with hfirst | hm
  · rw [read, if_pos hfirst.symm] at h
    exact absurd h (by decide)
  · exact notMem_newline_extra atStart first rest h hm

end Lexeme

/-! ## 4. The tokens of a text -/

namespace Piece

/-- Every lexeme of a text has been read there. -/
theorem exists_read_of_mem_ofChars {ctx : LexContext} {cs : List Char} {kind : Kind}
    {text : List Char} {fault : Option Cause} (h : lexeme kind text fault ∈ ofChars ctx cs) :
    ∃ atStart first rest, kind = (Lexeme.read atStart first rest).kind ∧
      text = first :: rest.take (Lexeme.read atStart first rest).extra := by
  fun_induction ofChars ctx cs with
  | case1 => exact absurd h List.not_mem_nil
  | case2 ctx c rest hb ih =>
    rcases List.mem_cons.mp h with h | h
    · cases h
    · exact ih h
  | case3 ctx c rest hb hr ih =>
    rcases List.mem_cons.mp h with h | h
    · cases h
    · exact ih h
  | case4 ctx c rest hb hr found ih =>
    rcases List.mem_cons.mp h with h | h
    · cases h
      exact ⟨ctx.atStart, c, rest, rfl, rfl⟩
    · exact ih h

/-- Every token comes from a lexeme, has its text and covers it. -/
theorem exists_lexeme_of_mem_tokensFrom {file : Nat} {place : Place} {pieces : List Piece}
    {t : Token} (h : t ∈ tokensFrom file place pieces) :
    ∃ text fault, lexeme t.kind text fault ∈ pieces ∧ t.text = String.ofList text ∧
      ∃ start : Place, t.span = ⟨start, start.after text, file⟩ := by
  induction pieces generalizing place with
  | nil => exact absurd h List.not_mem_nil
  | cons piece rest ih =>
    have hrest {place' : Place} (h : t ∈ tokensFrom file place' rest) :
        ∃ text fault, lexeme t.kind text fault ∈ piece :: rest ∧ t.text = String.ofList text ∧
          ∃ start : Place, t.span = ⟨start, start.after text, file⟩ := by
      obtain ⟨text, fault, hmem, htext⟩ := ih h
      exact ⟨text, fault, List.mem_cons_of_mem _ hmem, htext⟩
    cases piece with
    | space text => exact hrest h
    | lexeme kind text fault =>
      rcases List.mem_cons.mp h with rfl | h
      · exact ⟨text, fault, List.mem_cons_self, rfl, place, rfl⟩
      · exact hrest h

end Piece

/-- A text without line feeds is walked over on one line. -/
theorem Place.after_of_notMem (p : Place) {text : List Char} (h : '\n' ∉ text) :
    p.after text = ⟨p.line, p.column + text.length⟩ := by
  induction text generalizing p with
  | nil => rfl
  | cons c text ih =>
    obtain ⟨hc, htext⟩ := not_or.mp (mt List.mem_cons.mpr h)
    have hstep : p.step c = ⟨p.line, p.column + 1⟩ := if_neg (Ne.symm hc)
    rw [after_cons, hstep, ih _ htext, List.length_cons]
    simp only [Place.mk.injEq, true_and]
    omega

/-- A span that covers at least one character, all of them on one line. -/
def Span.OnLine (span : Span) : Prop :=
  span.start.line = span.stop.line ∧ span.start.column < span.stop.column

/-- Every token of a text that is not its end has been read there. -/
theorem Lexed.exists_read {source : String} {file : Nat} {t : Token}
    (ht : t ∈ (ofText source file).tokens) (hk : t.kind ≠ .endOfFile) :
    ∃ atStart first rest, t.kind = (Lexeme.read atStart first rest).kind ∧
      t.text = String.ofList (first :: rest.take (Lexeme.read atStart first rest).extra) ∧
      ∃ start : Place, t.span =
        ⟨start, start.after (first :: rest.take (Lexeme.read atStart first rest).extra), file⟩ := by
  rcases List.mem_append.mp ht with hin | hin
  · obtain ⟨text, fault, hmem, htext, hspan⟩ := Piece.exists_lexeme_of_mem_tokensFrom hin
    obtain ⟨atStart, first, rest, hkind, rfl⟩ := Piece.exists_read_of_mem_ofChars hmem
    exact ⟨atStart, first, rest, hkind, htext, hspan⟩
  · rw [List.mem_singleton.mp hin] at hk
    exact absurd rfl hk

/-- A name is not the end of a text. -/
theorem Kind.IsName.ne_endOfFile {kind : Kind} (h : kind.IsName) : kind ≠ .endOfFile := by
  rintro rfl
  rcases h with h | h | h <;> cases h

/-- **The names of a text lie on one line** each, and in its file. -/
theorem Lexed.onLine_of_isName {source : String} {file : Nat} {t : Token}
    (ht : t ∈ (ofText source file).tokens) (hname : t.kind.IsName) :
    t.span.OnLine ∧ t.span.file = file := by
  obtain ⟨atStart, first, rest, hkind, -, start, hspan⟩ := exists_read ht hname.ne_endOfFile
  rw [hkind] at hname
  have hline := Lexeme.notMem_newline_of_isName atStart first rest hname
  rw [hspan, Place.after_of_notMem start hline]
  refine ⟨⟨rfl, ?_⟩, rfl⟩
  simp only [List.length_cons]
  omega

end BasicCheck
