import BasicCheck.Proofs.Token.StatementStart

/-!
# What a quoted literal says

A literal may be continued on the next line anywhere in its value (`Continued`). The lexer looks for
its end with one scan, and its value is read off its text with another; both step over the
continuations in the same way (`Continued.literalLength`, `Continued.withoutContinuations`). So a
literal is one token with the text as written, and its value is what was put between the quotes
(**`Lexed.literal_ofText`**). There are no other closed literals (`exists_continued`).
-/

namespace BasicCheck

/-! ## 1. Values and how they are continued -/

/-- A text between quotes is a value with line continuations put into it, anywhere. -/
inductive Continued : List Char → List Char → Prop
  | nil : Continued [] []
  | char (c : Char) {value body : List Char} (h : Continued value body) :
    Continued (c :: value) (c :: body)
  | feed {value body : List Char} (h : Continued value body) :
    Continued value ('|' :: '\n' :: body)
  | returnFeed {value body : List Char} (h : Continued value body) :
    Continued value ('|' :: '\r' :: '\n' :: body)

/-- No line break comes next that a `|` in front could continue. -/
def Unbroken (cs : List Char) : Prop :=
  ∀ more, cs ≠ '\n' :: more ∧ cs ≠ '\r' :: '\n' :: more

theorem unbroken_nil : Unbroken [] := fun _ => ⟨nofun, nofun⟩

/-- Behind the value comes a quote. -/
theorem unbroken_quote {quote : Char} (hquote : quote = '"' ∨ quote = '\'') (cs : List Char) :
    Unbroken (quote :: cs) := by
  rcases hquote with rfl | rfl <;> exact fun _ => ⟨nofun, nofun⟩

namespace Continued

variable {value body : List Char} {quote : Char}

/-- Every line break of the text belongs to a `|` in front of it. -/
theorem unbroken (h : Continued value body) (hfeed : '\n' ∉ value) {behind : List Char}
    (hbehind : Unbroken behind) : Unbroken (body ++ behind) := by
  induction h with
  | nil => exact hbehind
  | @char c value body _ ih =>
    have hrest : Unbroken (body ++ behind) := ih fun hmem => hfeed (List.mem_cons_of_mem _ hmem)
    refine fun more => ⟨fun heq => ?_, fun heq => ?_⟩
    · obtain ⟨rfl, -⟩ := List.cons.inj heq
      exact hfeed List.mem_cons_self
    · -- a carriage return of the value stands in front of no line feed
      exact (hrest more).1 (List.cons.inj heq).2
  | feed => exact fun _ => ⟨nofun, nofun⟩
  | returnFeed => exact fun _ => ⟨nofun, nofun⟩

/-- **The lexer finds the end** behind the value. -/
theorem literalLength_body (h : Continued value body) (hquote : quote = '"' ∨ quote = '\'')
    (hno : quote ∉ value) (hfeed : '\n' ∉ value) (behind : List Char) :
    literalLength quote (body ++ quote :: behind) = (body.length + 1, true) := by
  have hbar : quote ≠ '|' := by rcases hquote with rfl | rfl <;> decide
  induction h with
  | nil => rw [List.nil_append, literalLength_cons fun heq => absurd heq hbar, if_pos rfl]; rfl
  | @char c value body h ih =>
    rw [List.mem_cons, not_or] at hno hfeed
    have hplain := h.unbroken hfeed.2 (unbroken_quote hquote behind)
    rw [List.cons_append, literalLength_cons fun _ => hplain, if_neg (Ne.symm hno.1),
      if_neg (Ne.symm hfeed.1), ih hno.2 hfeed.2]
    rfl
  | @feed value body _ ih =>
    rw [List.cons_append, List.cons_append, literalLength, ih hno hfeed]
    rfl
  | @returnFeed value body _ ih =>
    rw [List.cons_append, List.cons_append, List.cons_append, literalLength, ih hno hfeed]
    rfl

/-- **The value is read back** off the text between the quotes. -/
theorem withoutContinuations_body (h : Continued value body) (hfeed : '\n' ∉ value) :
    withoutContinuations body = value := by
  induction h with
  | nil => rfl
  | @char c value body h ih =>
    rw [List.mem_cons, not_or] at hfeed
    have hplain : Unbroken body := by
      have hbody := h.unbroken hfeed.2 unbroken_nil
      rwa [List.append_nil] at hbody
    rw [withoutContinuations, ih hfeed.2]
    · exact fun more _ hmore => (hplain more).1 hmore
    · exact fun more _ hmore => (hplain more).2 hmore
  | @feed value body _ ih => rw [withoutContinuations, ih hfeed]
  | @returnFeed value body _ ih => rw [withoutContinuations, ih hfeed]

/-- The value of a literal is what was put between its quotes. -/
theorem literalValue_quoted (h : Continued value body) (hfeed : '\n' ∉ value) (quote : Char) :
    literalValue (String.ofList (quote :: (body ++ [quote]))) = String.ofList value := by
  rw [literalValue, String.toList_ofList]
  dsimp only
  rw [List.getLast?_concat, if_pos rfl, List.dropLast_concat, h.withoutContinuations_body hfeed]

end Continued

/-- Every closed literal is a value that was continued, between two quotes. -/
theorem exists_continued {quote : Char} {cs : List Char} (h : (literalLength quote cs).2 = true) :
    ∃ value body behind, Continued value body ∧ quote ∉ value ∧ '\n' ∉ value ∧
      cs = body ++ quote :: behind ∧ (literalLength quote cs).1 = body.length + 1 := by
  fun_induction literalLength quote cs with
  | case1 cs ih =>
    obtain ⟨value, body, behind, hbody, hno, hfeed, rfl, hlength⟩ := ih h
    exact ⟨value, _, behind, hbody.feed, hno, hfeed, rfl, congrArg (· + 2) hlength⟩
  | case2 cs ih =>
    obtain ⟨value, body, behind, hbody, hno, hfeed, rfl, hlength⟩ := ih h
    exact ⟨value, _, behind, hbody.returnFeed, hno, hfeed, rfl, congrArg (· + 3) hlength⟩
  | case3 cs => exact ⟨[], [], cs, .nil, List.not_mem_nil, List.not_mem_nil, rfl, rfl⟩
  | case4 => cases h
  | case5 c cs _ _ hquote hline ih =>
    obtain ⟨value, body, behind, hbody, hno, hfeed, rfl, hlength⟩ := ih h
    refine ⟨c :: value, c :: body, behind, hbody.char c, ?_, ?_, rfl, congrArg (· + 1) hlength⟩
    · exact List.not_mem_cons_of_ne_of_not_mem (Ne.symm hquote) hno
    · exact List.not_mem_cons_of_ne_of_not_mem (Ne.symm hline) hfeed
  | case6 => cases h

/-! ## 2. Where a lexeme was found -/

namespace Piece

variable {file : Nat} {place : Place}

/-- A lexeme among the pieces of a text was read at the head of what is behind the pieces in front
    of it. -/
theorem exists_read_of_split {ctx : LexContext} {cs : List Char} {front back : List Piece}
    {kind : Kind} {text : List Char} {fault : Option Cause}
    (h : ofChars ctx cs = front ++ lexeme kind text fault :: back) :
    ∃ (ctx' : LexContext) (first : Char) (rest : List Char),
      cs = front.flatMap chars ++ first :: rest ∧
      kind = (Lexeme.read ctx'.atStart first rest).kind ∧
      text = first :: rest.take (Lexeme.read ctx'.atStart first rest).extra ∧
      fault = (Lexeme.read ctx'.atStart first rest).fault := by
  fun_induction ofChars ctx cs generalizing front with
  | case1 => exact absurd h.symm (List.append_ne_nil_of_right_ne_nil _ (List.cons_ne_nil _ _))
  | case2 ctx c rest _ ih =>
    cases front with
    | nil => cases (List.cons.inj h).1
    | cons piece front =>
      obtain ⟨rfl, hback⟩ := List.cons.inj h
      obtain ⟨ctx', first, more, hrest, hread⟩ := ih hback
      refine ⟨ctx', first, more, ?_, hread⟩
      rw [List.flatMap_cons, List.append_assoc, ← hrest, chars, List.cons_append,
        List.takeWhile_append_dropWhile]
  | case3 ctx c rest _ _ ih =>
    cases front with
    | nil => cases (List.cons.inj h).1
    | cons piece front =>
      obtain ⟨rfl, hback⟩ := List.cons.inj h
      obtain ⟨ctx', first, more, rfl, hread⟩ := ih hback
      exact ⟨ctx', first, more, rfl, hread⟩
  | case4 ctx c rest _ _ found =>
    rename_i ih
    cases front with
    | nil =>
      obtain ⟨hkind, htext, hfault⟩ := Piece.lexeme.inj (List.cons.inj h).1
      exact ⟨ctx, c, rest, rfl, hkind.symm, htext.symm, hfault.symm⟩
    | cons piece front =>
      obtain ⟨rfl, hback⟩ := List.cons.inj h
      obtain ⟨ctx', first, more, hrest, hread⟩ := ih hback
      refine ⟨ctx', first, more, ?_, hread⟩
      rw [List.flatMap_cons, List.append_assoc, ← hrest, chars, List.cons_append,
        List.take_append_drop]

/-- A token is a lexeme of the text, at the place behind the pieces in front of it. -/
theorem exists_split_of_mem_tokensFrom {pieces : List Piece} {t : Token}
    (h : t ∈ tokensFrom file place pieces) : ∃ front kind text fault back,
      pieces = front ++ lexeme kind text fault :: back ∧
      t = ⟨kind, String.ofList text, ⟨place.after (front.flatMap chars),
        (place.after (front.flatMap chars)).after text, file⟩,
        kind.isBlankSensitive && spaceAhead back⟩ := by
  induction pieces generalizing place with
  | nil => exact absurd h List.not_mem_nil
  | cons piece pieces ih =>
    have hlater (hrest : t ∈ tokensFrom file (place.after piece.chars) pieces) :
        ∃ front kind text fault back, piece :: pieces = front ++ lexeme kind text fault :: back ∧
          t = ⟨kind, String.ofList text, ⟨place.after (front.flatMap chars),
            (place.after (front.flatMap chars)).after text, file⟩,
            kind.isBlankSensitive && spaceAhead back⟩ := by
      obtain ⟨front, kind, text, fault, back, rfl, rfl⟩ := ih hrest
      refine ⟨piece :: front, kind, text, fault, back, rfl, ?_⟩
      rw [List.flatMap_cons, Place.after_append]
    cases piece with
    | space text => exact hlater h
    | lexeme kind text fault =>
      rcases List.mem_cons.mp h with rfl | hrest
      · exact ⟨[], kind, text, fault, pieces, rfl, rfl⟩
      · exact hlater hrest

/-- A fault is that of a lexeme of the text, and starts where the lexeme does. -/
theorem exists_split_of_mem_faultsFrom {pieces : List Piece} {f : Fault}
    (h : f ∈ faultsFrom file place pieces) : ∃ front kind text back,
      pieces = front ++ lexeme kind text (some f.cause) :: back ∧
      f.span.start = place.after (front.flatMap chars) := by
  induction pieces generalizing place with
  | nil => exact absurd h List.not_mem_nil
  | cons piece pieces ih =>
    have hlater (hrest : f ∈ faultsFrom file (place.after piece.chars) pieces) :
        ∃ front kind text back, piece :: pieces = front ++ lexeme kind text (some f.cause) :: back ∧
          f.span.start = place.after (front.flatMap chars) := by
      obtain ⟨front, kind, text, back, rfl, hstart⟩ := ih hrest
      refine ⟨piece :: front, kind, text, back, rfl, ?_⟩
      rw [hstart, List.flatMap_cons, Place.after_append]
    cases piece with
    | space text => exact hlater h
    | lexeme kind text fault =>
      cases fault with
      | none => exact hlater h
      | some cause =>
        rcases List.mem_cons.mp h with rfl | hrest
        · exact ⟨[], kind, text, pieces, rfl, rfl⟩
        · exact hlater hrest

end Piece

/-! ## 3. Literals in a text -/

/-- A text between two quotes. -/
def quotedBy (quote : Char) (body : List Char) : List Char := quote :: (body ++ [quote])

section Literals

variable {value body : List Char} {quote : Char}

theorem Lexeme.literal_body (h : Continued value body) (hquote : quote = '"' ∨ quote = '\'')
    (hno : quote ∉ value) (hfeed : '\n' ∉ value) (behind : List Char) :
    literal quote (body ++ quote :: behind) = ⟨.string, body.length + 1, none⟩ := by
  rw [literal, h.literalLength_body hquote hno hfeed]
  rfl

/-- A lexeme that is read at the opening quote is the whole literal. -/
theorem Lexeme.read_quoted (h : Continued value body) (hquote : quote = '"' ∨ quote = '\'')
    (hno : quote ∉ value) (hfeed : '\n' ∉ value) (atStart : Bool) (behind : List Char) :
    read atStart quote (body ++ quote :: behind) = ⟨.string, body.length + 1, none⟩ := by
  have hread : read atStart quote (body ++ quote :: behind) =
      literal quote (body ++ quote :: behind) := by
    rcases hquote with rfl | rfl <;> simp [read]
  rw [hread, literal_body h hquote hno hfeed]

/-- So is a lexeme of a text at the place of the opening quote. -/
theorem Piece.lexeme_quoted (h : Continued value body) (hquote : quote = '"' ∨ quote = '\'')
    (hno : quote ∉ value) (hfeed : '\n' ∉ value) {ctx : LexContext} {cs before behind : List Char}
    (hcs : cs = before ++ (quotedBy quote body ++ behind)) {front back : List Piece} {kind : Kind}
    {text : List Char} {fault : Option Cause}
    (hsplit : ofChars ctx cs = front ++ lexeme kind text fault :: back)
    (hplace : Place.origin.after (front.flatMap chars) = Place.origin.after before) :
    lexeme kind text fault = lexeme .string (quotedBy quote body) none := by
  obtain ⟨ctx', first, rest, hfront, rfl, rfl, rfl⟩ := exists_read_of_split hsplit
  -- the place tells which character the lexeme was read at
  have hhere : front.flatMap chars ++ first :: rest =
      before ++ quote :: (body ++ quote :: behind) := by
    rw [← hfront, hcs, quotedBy, List.cons_append, List.append_assoc, List.singleton_append]
  rw [Place.eq_of_after_eq hhere hplace] at hhere
  obtain ⟨rfl, rfl⟩ := List.cons.inj (List.append_cancel_left hhere)
  have htake : (body ++ first :: behind).take (body.length + 1) = body ++ [first] := by
    rw [List.take_length_add_append, List.take_succ_cons, List.take_zero]
  rw [Lexeme.read_quoted h hquote hno hfeed, htake, quotedBy]

end Literals

/-- **Literals carry their value.** Where a token of a text starts at the quote of a value that was
    continued in any way, it is the literal up to the closing quote, no fault starts there, and its
    value is the one that was put between the quotes. -/
theorem Lexed.literal_ofText {quote : Char} {value body before behind : List Char}
    (hquote : quote = '"' ∨ quote = '\'') (hno : quote ∉ value) (hfeed : '\n' ∉ value)
    (hbody : Continued value body) {source : String}
    (hsource : source.toList = before ++ (quotedBy quote body ++ behind)) {file : Nat}
    {token : Token} (htoken : token ∈ (ofText source file).tokens)
    (hstart : token.span.start = Place.origin.after before) :
    token.kind = .string ∧ token.text = String.ofList (quotedBy quote body) ∧
      token.span.stop = token.span.start.after (quotedBy quote body) ∧
      (∀ fault ∈ (ofText source file).faults, fault.span.start ≠ token.span.start) ∧
      literalValue token.text = String.ofList value := by
  have hlexeme : token ∈ Piece.tokensFrom file .origin (Piece.ofChars .initial source.toList) := by
    refine (List.mem_append.mp htoken).resolve_right fun hend => ?_
    -- the end of the file is behind the literal
    have hlt : Place.origin.after before < Place.origin.after source.toList := by
      rw [hsource, Place.after_append]
      exact Place.lt_after _ (List.cons_ne_nil _ _)
    rw [← hstart, List.mem_singleton.mp hend] at hlt
    exact Place.lt_irrefl _ hlt
  obtain ⟨front, kind, text, fault, back, hsplit, rfl⟩ :=
    Piece.exists_split_of_mem_tokensFrom hlexeme
  obtain ⟨rfl, rfl, rfl⟩ := Piece.lexeme.inj
    (Piece.lexeme_quoted hbody hquote hno hfeed hsource hsplit hstart)
  refine ⟨rfl, rfl, rfl, fun f hf hplace => ?_, hbody.literalValue_quoted hfeed quote⟩
  obtain ⟨front', kind, text, back', hsplit', hstart'⟩ := Piece.exists_split_of_mem_faultsFrom hf
  have hsame := Piece.lexeme_quoted hbody hquote hno hfeed hsource hsplit'
    (hstart'.symm.trans (hplace.trans hstart))
  cases (Piece.lexeme.inj hsame).2.2

/-- A value with bars, continued twice: behind the first `|` in front of a line feed, behind the
    second one in front of a carriage return and a line feed. -/
theorem Lexed.literal_ofText_bars :
    let text := "\"it's ||\n||\r\nb\""
    let token : Token := ⟨.string, text, ⟨⟨1, 4⟩, ⟨3, 2⟩, 0⟩, false⟩
    token ∈ (ofText ("x = " ++ text ++ "\n") 0).tokens ∧
      (∀ fault ∈ (ofText ("x = " ++ text ++ "\n") 0).faults,
        fault.span.start ≠ token.span.start) ∧
      literalValue text = "it's ||b" := by
  intro text token
  have hbody : Continued "it's ||b".toList "it's ||\n||\r\nb".toList :=
    .char _ <| .char _ <| .char _ <| .char _ <| .char _ <| .char _ <| .feed <| .char _ <|
      .returnFeed <| .char _ .nil
  have htoken : token ∈ (ofText ("x = " ++ text ++ "\n") 0).tokens := by decide +kernel
  have hsource : ("x = " ++ text ++ "\n").toList =
      "x = ".toList ++ (quotedBy '"' "it's ||\n||\r\nb".toList ++ ['\n']) := by decide
  have hliteral :=
    literal_ofText (.inl rfl) (by decide) (by decide) hbody hsource htoken (by decide)
  exact ⟨htoken, hliteral.2.2.2.1, hliteral.2.2.2.2⟩

end BasicCheck
