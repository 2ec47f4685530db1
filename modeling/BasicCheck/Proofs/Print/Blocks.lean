import BasicCheck.Parse.Procedure
import BasicCheck.Proofs.Print.Facing

/-!
# Blocks are read as they are written

A statement is read if, ahead of its marks and a line end, the parser gives it up to spans and stops at
the line end (`ReadsStatement`). A block of such statements ends where its own kind of end comes next
and nowhere earlier (**`run_block`**), because no statement starts with a word that closes a block. The
same lemma serves arms, loops and choices; so each construct finds the word that closes it where the
block within it has stopped.
-/

namespace BasicCheck.Parse

/-! ## 1. Ends of blocks -/

/-- The marks in front of which a block ends. -/
def BlockEnd.Closes : BlockEnd → List Mark → Prop
  | file, ms => ms = []
  | arm, ms => ∃ rest, ms = .key .END :: rest
  | counted, ms => ∃ rest, ms = .key .NEXT :: rest
  | loop, ms => ∃ rest, ms = .key .REPEAT :: rest
  | caseArm, ms => (∃ rest, ms = .key .CASE :: rest) ∨ ∃ rest, ms = .key .END :: .key .CASE :: rest

/-- In front of the marks of a statement and a line end, a parser gives the statement up to spans. A
    condition of a loop is given only if a loop is open. -/
def ReadsStatement (tail : List Token) (p : Parser Statement) (looping : Bool) (st : Statement) :
    Prop :=
  ∀ (depth : Nat) (rest : List Mark) (s : State), (looping = true → 0 < depth) →
    Facing tail depth (st.marks ++ .newline :: rest) s →
    ∃ st' u, p s = (.ok st', u) ∧ st'.eraseSpans = st.eraseSpans ∧
      Facing tail depth (.newline :: rest) u

theorem recover_of_ok {α : Type} {standIn a : α} {p : Parser α} {s u : State}
    (hp : p s = (.ok a, u)) : recover standIn p s = (a, u) :=
  (step_bind (outset_eq s)).trans (step_bind hp)

section Ends

variable {tail : List Token} {depth : Nat} {ms : List Mark} {s : State} {stop : BlockEnd}

/-- No block ends where a statement starts. -/
theorem atBlockEnd_of_opens (ho : OpensWell ms) (h : Facing tail depth ms s) :
    atBlockEnd stop s = (false, s) := by
  have hend := h.kind_ne_of_opens (k := .keyword .END) ho (by decide)
  have hcase := h.kind_ne_of_opens (k := .keyword .CASE) ho (by decide)
  cases stop with
  | file => rfl
  | arm => exact congrArg (·, s) (beq_eq_false_iff_ne.mpr hend)
  | counted =>
    exact congrArg (·, s) (beq_eq_false_iff_ne.mpr (h.kind_ne_of_opens ho (by decide)))
  | loop =>
    exact congrArg (·, s) (beq_eq_false_iff_ne.mpr (h.kind_ne_of_opens ho (by decide)))
  | caseArm =>
    dsimp only [atBlockEnd]
    rw [step_bind (currentKind_eq s)]
    generalize s.current.kind = kind at hend hcase
    split
    · exact absurd rfl hcase
    · exact absurd rfl hend
    · rfl

/-- A block ends in front of the marks that close it, or at the end of the file. -/
theorem atBlockEnd_of_closes (htail : ∀ t ∈ tail.head?, t.kind = .endOfFile)
    (hc : stop.Closes ms) (h : Facing tail depth ms s) :
    ∃ atEnd, atBlockEnd stop s = (atEnd, s) ∧
      ((s.current.kind == .endOfFile) || atEnd) = true ∧ s.current.kind ≠ .newline := by
  cases stop with
  | file =>
    have hkind : s.current.kind = .endOfFile := by
      cases hc
      exact h.current_of_nil htail
    refine ⟨false, rfl, ?_, ?_⟩ <;> rw [hkind] <;> decide
  | arm | counted | loop =>
    obtain ⟨rest, rfl⟩ := hc
    have hkind := h.kind_sign
    refine ⟨true, congrArg (·, s) (beq_iff_eq.mpr hkind), Bool.or_true _, ?_⟩
    rw [hkind]
    decide
  | caseArm =>
    rcases hc with ⟨rest, rfl⟩ | ⟨rest, rfl⟩
    · have hkind := h.kind_sign
      refine ⟨true, ?_, Bool.or_true _, by rw [hkind]; decide⟩
      dsimp only [atBlockEnd]
      rw [step_bind (currentKind_eq s), hkind]
      rfl
    · have hkind := h.kind_sign
      obtain ⟨t, ht, hnext⟩ := h.nextKind
      refine ⟨true, ?_, Bool.or_true _, by rw [hkind]; decide⟩
      dsimp only [atBlockEnd]
      rw [step_bind (currentKind_eq s), hkind]
      refine (step_bind hnext).trans ?_
      rw [show t.kind = .keyword .CASE from ht, beq_self_eq_true]
      rfl

end Ends

/-! ## 2. Blocks -/

section Blocks

variable {tail : List Token} (htail : ∀ t ∈ tail.head?, t.kind = .endOfFile) {depth : Nat}
  {p : Parser Statement} {looping : Bool} (stop : BlockEnd) {rest : List Mark}

include htail

/-- The last turn of a block. -/
theorem run_blockTurn_done (hc : stop.Closes rest) (count : Nat) (found : Array Statement)
    {s : State} (h : Facing tail depth (List.replicate count .newline ++ rest) s) :
    ∃ u, blockTurn p stop found s = (.done found.toList, u) ∧ Facing tail depth rest u := by
  obtain ⟨u, hskip, hu⟩ := run_skipNewlines (fun s hs => by
    obtain ⟨_, _, _, hne⟩ := atBlockEnd_of_closes htail hc hs
    exact hne) count h
  obtain ⟨atEnd, hend, hor, -⟩ := atBlockEnd_of_closes htail hc hu
  refine ⟨u, ?_, hu⟩
  unfold blockTurn
  rw [step_bind hskip, step_bind (sees_eq u .endOfFile), step_bind hend, hor]
  rfl

omit htail in
/-- A turn of a block over whatever opens like a statement and is read up to a line end, also if what
    comes behind has been told otherwise so far. -/
theorem run_blockTurn_opens {tail' : List Token} {ms : List Mark} {Q : Statement → Nat → Prop}
    (ho : OpensWell ms) (count : Nat) (found : Array Statement) {s : State}
    (h : Facing tail depth (List.replicate count .newline ++ ms) s)
    (hrun : ∀ u, Facing tail depth ms u → ∃ st v depth', p u = (.ok st, v) ∧ Q st depth' ∧
      st.isSeparatorExempt = false ∧ Facing tail' depth' (.newline :: rest) v) :
    ∃ st u depth', blockTurn p stop found s = (.again (found ++ #[st]), u) ∧ Q st depth' ∧
      Facing tail' depth' rest u := by
  obtain ⟨u, hskip, hu⟩ := run_skipNewlines
    (fun s hs => hs.kind_ne_of_opens ho (by decide)) count h
  obtain ⟨st, v, depth', hrun, hst, hexempt, hv⟩ := hrun u hu
  obtain ⟨w, hseparator, hw⟩ := run_expectSeparator hv
  have hfile : (u.current.kind == .endOfFile) = false :=
    beq_eq_false_iff_ne.mpr (hu.kind_ne_of_opens ho (by decide))
  have hone : (do
      let s ← p
      unless s.isSeparatorExempt do expectSeparator
      return some s : Parser (Option Statement)) u = (.ok (some st), w) := by
    rw [run_bind hrun, hexempt]
    exact run_bind hseparator
  refine ⟨st, w, depth', ?_, hst, hw⟩
  unfold blockTurn
  rw [step_bind hskip, step_bind (sees_eq u .endOfFile), step_bind (atBlockEnd_of_opens ho hu),
    hfile]
  exact (step_bind (recover_of_ok hone)).trans rfl

omit htail in
/-- A turn of a block over a statement and the line end behind it. -/
theorem run_blockTurn {st : Statement} (hst : st.Structured looping)
    (hreads : ReadsStatement tail p looping st) (hdepth : looping = true → 0 < depth) (count : Nat)
    (found : Array Statement) {s : State}
    (h : Facing tail depth (List.replicate count .newline ++ (st.marks ++ .newline :: rest)) s) :
    ∃ st' u, blockTurn p stop found s = (.again (found ++ #[st']), u) ∧
      st'.eraseSpans = st.eraseSpans ∧ Facing tail depth rest u := by
  obtain ⟨st', u, depth', hturn, ⟨hsame, rfl⟩, hu⟩ := run_blockTurn_opens stop
    (Q := fun st' depth' => st'.eraseSpans = st.eraseSpans ∧ depth' = depth)
    (OpensWell.append hst.opens _) count found h fun u hu => by
      obtain ⟨st', v, hrun, hsame, hv⟩ := hreads depth rest u hdepth hu
      refine ⟨st', v, depth, hrun, ⟨hsame, rfl⟩, ?_, hv⟩
      rw [← Statement.isSeparatorExempt_eraseSpans, hsame, Statement.isSeparatorExempt_eraseSpans]
      exact hst.not_exempt.2
  exact ⟨st', u, hturn, hsame, hu⟩

/-- The turns of a block, one for each statement and one for the end. -/
theorem turns_blockTurn (hc : stop.Closes rest) (hdepth : looping = true → 0 < depth)
    {body : Block} (hbody : ∀ st ∈ body, st.Structured looping)
    (hreads : ∀ st ∈ body, ReadsStatement tail p looping st) (count : Nat) (found : Array Statement)
    (n : Nat) (s : State) (hn : body.length < n)
    (h : Facing tail depth (List.replicate count .newline ++ (Block.marks body ++ rest)) s) :
    ∃ body' u, loopUpTo (blockTurn p stop) Array.toList n found s = (found.toList ++ body', u) ∧
      Block.eraseSpans body' = Block.eraseSpans body ∧ Facing tail depth rest u := by
  induction body generalizing count found n s with
  | nil =>
    obtain ⟨n, rfl⟩ := Nat.exists_eq_succ_of_ne_zero (Nat.ne_zero_of_lt hn)
    obtain ⟨u, hturn, hu⟩ := run_blockTurn_done (p := p) htail stop hc count found h
    refine ⟨[], u, ?_, rfl, hu⟩
    rw [List.append_nil]
    exact loopUpTo_done hturn
  | cons st body ih =>
    obtain ⟨n, rfl⟩ := Nat.exists_eq_succ_of_ne_zero (Nat.ne_zero_of_lt hn)
    rw [Block.marks, List.append_assoc, List.cons_append] at h
    obtain ⟨st', v, hturn, hsame, hv⟩ := run_blockTurn stop (hbody st List.mem_cons_self)
      (hreads st List.mem_cons_self) hdepth count found h
    obtain ⟨body', u, hrun, hsames, hu⟩ := ih (fun st hm => hbody st (List.mem_cons_of_mem _ hm))
      (fun st hm => hreads st (List.mem_cons_of_mem _ hm)) 0 (found ++ #[st']) n v
      (Nat.lt_of_succ_lt_succ hn) hv
    refine ⟨st' :: body', u, (loopUpTo_again hturn).trans (hrun.trans ?_), ?_, hu⟩
    · simp
    · rw [Block.eraseSpans, Block.eraseSpans, hsame, hsames]

omit htail in
/-- A block has a mark for each of its statements. -/
theorem length_le_length_marks (body : Block) : body.length ≤ (Block.marks body).length := by
  induction body with
  | nil => exact Nat.le_refl 0
  | cons st body ih =>
    rw [Block.marks, List.length_append, List.length_cons, List.length_cons]
    omega

/-- **A block of statements that are read is read up to its end**, also behind line ends. -/
theorem run_block (hc : stop.Closes rest) (hdepth : looping = true → 0 < depth) {body : Block}
    (hbody : ∀ st ∈ body, st.Structured looping)
    (hreads : ∀ st ∈ body, ReadsStatement tail p looping st) (count : Nat) {s : State}
    (h : Facing tail depth (List.replicate count .newline ++ (Block.marks body ++ rest)) s) :
    ∃ body' u, block p stop s = (body', u) ∧
      Block.eraseSpans body' = Block.eraseSpans body ∧ Facing tail depth rest u := by
  have hsize := h.length_le_size
  have hlength := length_le_length_marks body
  simp only [List.length_append] at hsize
  exact turns_blockTurn htail stop hc hdepth hbody hreads count #[] (s.size + 1) s (by omega) h

/-! ## 3. Arms -/

omit htail in
/-- The word that closes a construct is read. -/
theorem run_closeBlock {word : Keyword} (construct : String) (start : Span) {s : State}
    (h : Facing tail depth (.key word :: rest) s) :
    ∃ span u, closeBlock word construct start s = (span, u) ∧ Facing tail depth rest u := by
  obtain ⟨t, u, hcurrent, hkind, hadvance, hu⟩ := h.sign
  refine ⟨t.span, u, ?_, hu⟩
  unfold closeBlock
  rw [step_bind (sees_eq s (.keyword word)), hkind, beq_self_eq_true, if_pos rfl]
  exact (step_bind (p := advance) hadvance).trans rfl

/-- An arm on lines of its own, if its word comes next. -/
theorem run_armAfter? (word : Keyword) (kind : RegionKind) {k : Kind} (hk : k ≠ .keyword word)
    (hdepth : looping = true → 0 < depth) {found : Option Block}
    (hbody : ∀ body ∈ found, ∀ st ∈ body, st.Structured looping)
    (hreads : ∀ body ∈ found, ∀ st ∈ body, ReadsStatement tail p looping st) {s : State}
    (h : Facing tail depth (marksOfArm word found ++ .sign k :: rest) s) :
    ∃ found' u, armAfter? p word kind s = (.ok found', u) ∧
      eraseArmSpans found' = eraseArmSpans found ∧ Facing tail depth (.sign k :: rest) u := by
  cases found with
  | none =>
    have hkind : (s.current.kind == .keyword word) = false := by
      rw [Facing.kind_sign h]
      exact beq_eq_false_iff_ne.mpr hk
    refine ⟨none, s, ?_, rfl, h⟩
    unfold armAfter?
    rw [run_after (sees_eq s (.keyword word)), hkind]
    rfl
  | some body =>
    simp only [marksOfArm, List.cons_append, List.append_assoc, List.nil_append] at h
    obtain ⟨t, u, hcurrent, hkind, hadvance, hu⟩ := h.sign
    obtain ⟨m, hbegin, hm⟩ := hu.begin
    obtain ⟨t', v, hcurrent', hkind', hadvance', hv⟩ := hm.sign
    obtain ⟨body', w, hblock, hsame, hw⟩ := run_block (p := p) htail .arm ⟨_, rfl⟩ hdepth
      (hbody body rfl) (hreads body rfl) 0 hv
    obtain ⟨span, x, hclose, hx⟩ := run_closeBlock kind.construct t.span hw
    obtain ⟨y, hregion, hy⟩ := hx.recordRegion kind (t.span.join span)
    have hline : atLineEnd m = (true, m) := by
      unfold atLineEnd
      rw [step_bind (currentKind_eq m), hkind']
      rfl
    have harm : arm p kind t.span u = (.ok body', y) := by
      unfold arm
      rw [run_after hbegin, run_after hline, if_pos rfl, run_bind (run_discard (run_lift (p := advance) hadvance')),
        run_after hblock, run_after hclose]
      exact run_after hregion
    refine ⟨some body', y, ?_, ?_, hy⟩
    · unfold armAfter?
      rw [run_after (sees_eq s (.keyword word)), hkind, beq_self_eq_true, if_pos rfl,
        run_after (p := advance) hadvance]
      exact (run_bind harm).trans rfl
    · rw [eraseArmSpans, eraseArmSpans, hsame]

omit htail in
/-- One statement up to the end of its line, also where an `else` would end it. -/
theorem run_lineBlock {st : Statement} (hst : st.Structured looping)
    (hreads : ReadsStatement tail p looping st) (hdepth : looping = true → 0 < depth)
    (stopsAtElse : Bool) {s : State} (h : Facing tail depth (st.marks ++ .newline :: rest) s) :
    ∃ st' u, lineBlock p stopsAtElse s = (.ok [st'], u) ∧ st'.eraseSpans = st.eraseSpans ∧
      Facing tail depth (.newline :: rest) u := by
  have hopens : OpensWell (st.marks ++ .newline :: rest) := OpensWell.append hst.opens _
  obtain ⟨st', u, hrun, hsame, hu⟩ := hreads depth rest s hdepth h
  have hnewline := hu.kind_sign
  have hsemicolon : consume .semicolon u = (false, u) := consume_of_ne (by rw [hnewline]; nofun)
  refine ⟨st', u, ?_, hsame, hu⟩
  unfold lineBlock
  rw [tryLoop_eq]
  refine turns_done ?_
  have hgoes : ¬ (s.current.kind == .newline || s.current.kind == .endOfFile ||
      (stopsAtElse && s.current.kind == .keyword .ELSE)) = true := by
    rw [beq_eq_false_iff_ne.mpr (h.kind_ne_of_opens hopens (by decide)),
      beq_eq_false_iff_ne.mpr (h.kind_ne_of_opens hopens (by decide)),
      beq_eq_false_iff_ne.mpr (h.kind_ne_else hopens), Bool.and_false]
    decide
  unfold lineTurn
  dsimp only
  rw [run_after (currentKind_eq s), if_neg hgoes, run_bind hrun, run_after hsemicolon,
    if_neg Bool.false_ne_true, run_after (currentKind_eq u), if_pos (by rw [hnewline]; rfl)]
  rfl

omit htail in
/-- An arm of one statement on the line of its word. -/
theorem run_lineArm {st : Statement} (hst : st.Structured looping)
    (hreads : ReadsStatement tail p looping st) (hdepth : looping = true → 0 < depth)
    (kind : RegionKind) (start : Span) {s : State}
    (h : Facing tail depth (st.marks ++ .newline :: rest) s) :
    ∃ st' u, arm p kind start s = (.ok [st'], u) ∧ st'.eraseSpans = st.eraseSpans ∧
      Facing tail depth (.newline :: rest) u := by
  have hopens : OpensWell (st.marks ++ .newline :: rest) := OpensWell.append hst.opens _
  obtain ⟨m, hbegin, hm⟩ := h.begin
  obtain ⟨st', u, hrun, hsame, hu⟩ := run_lineBlock hst hreads hdepth (kind == .thenArm) hm
  have hline : atLineEnd m = (false, m) := by
    have hnewline := hm.kind_ne_of_opens hopens (k := .newline) (by decide)
    have hsemicolon := hm.kind_ne_of_opens hopens (k := .semicolon) (by decide)
    unfold atLineEnd
    rw [step_bind (currentKind_eq m)]
    generalize m.current.kind = k at hnewline hsemicolon
    split
    · exact absurd rfl hnewline
    · exact absurd rfl hsemicolon
    · rfl
  refine ⟨st', u, ?_, hsame, hu⟩
  unfold arm
  rw [run_after hbegin, run_after hline, if_neg Bool.false_ne_true]
  exact hrun

end Blocks

/-- Whether an arm holds a statement does not depend on spans. -/
theorem holdsStatement_of_eraseSpans {looping : Bool} {found found' : Option Block}
    (hsame : eraseArmSpans found' = eraseArmSpans found)
    (hbody : ∀ body ∈ found, ∀ st ∈ body, st.Structured looping)
    (hsome : ∃ body ∈ found, body ≠ []) : holdsStatement found' = true := by
  obtain ⟨body, hfound, hne⟩ := hsome
  obtain ⟨st, body, rfl⟩ := List.exists_cons_of_ne_nil hne
  rw [hfound] at hsame
  cases found' with
  | none => cases hsame
  | some body' =>
    cases body' with
    | nil => cases hsame
    | cons st' body' =>
      simp only [eraseArmSpans, Block.eraseSpans, Option.some.injEq, List.cons.injEq] at hsame
      have hempty : st'.isEmpty = false := by
        rw [← Statement.isEmpty_eraseSpans, hsame.1, Statement.isEmpty_eraseSpans]
        exact (hbody _ hfound st List.mem_cons_self).not_exempt.1
      simp [holdsStatement, hempty]

end BasicCheck.Parse
