import BasicCheck.Proofs.Grammar.Decision
import BasicCheck.Proofs.Parse.Block

/-!
# What reading statements and blocks comes to

How statements, blocks and the arms of choices came about between two states (`Written`): which word
each statement opens with, where it ends, what it holds, what separates it from the next one of its
block, and what is only so as long as there is no error. Every statement and every block is written so
(**`writes_statement`**, **`goes_block`**), whatever the tokens are.

The front of a block is what has been read of it while more may follow; only the last statement of a
block can do without a separator.
-/

namespace BasicCheck

theorem Kind.isWord_of_isSeparator {kind : Kind} (h : kind.isSeparator) : kind.IsWord := by
  constructor
  · rintro rfl
    cases h
  · rintro rfl
    cases h

/-- What holds of a statement and of all statements in its blocks. -/
theorem Statement.forall_mem_within {P : Statement → Prop} {st : Statement} :
    (∀ x ∈ st :: st.within, P x) ↔ P st ∧ ∀ body ∈ st.blocks, ∀ x ∈ Block.all body, P x := by
  rw [List.forall_mem_cons, Statement.within_eq]
  exact and_congr_right fun _ => List.forall_mem_flatMap

/-- The statements of a block are those of its front, its last one and what stands in this one. -/
theorem Block.all_concat (front : Block) (last : Statement) :
    Block.all (front ++ [last]) = Block.all front ++ last :: last.within := by
  rw [Block.all_append, Block.all, Block.all, List.append_nil]

theorem Block.forall_mem_all_concat {P : Statement → Prop} {front : Block} {last : Statement}
    (hfront : ∀ x ∈ Block.all front, P x) (hlast : ∀ x ∈ last :: last.within, P x) :
    ∀ x ∈ Block.all (front ++ [last]), P x := by
  rw [Block.all_concat]
  exact List.forall_mem_append.mpr ⟨hfront, hlast⟩

namespace Grammar

open Parse

variable {o s u v : State} {t : Token} {st : Statement} {ss : Block}

/-! ## 1. What is written -/

/-- What a state may have behind it. -/
inductive Node where
  | statement (st : Statement)
  /-- Statements of a block to which more may be added. -/
  | front (ss : Block)
  | block (body : Block)
  /-- A block somewhere on the way. -/
  | nested (body : Block)
  /-- The body of a loop. -/
  | looped (body : Block)
  | arm (a : CaseArm)

/-- The statements of a node, at every depth. -/
def Node.all : Node → List Statement
  | statement st => st :: st.within
  | front body | block body | nested body | looped body => Block.all body
  | arm a => Block.all a.body

/-- A node was read between two states. -/
inductive Written : Node → State → State → Prop where
  | action {a : Action} {t : Token} {s u : State} (opens : Opens s t u) (told : Told a s u) :
      Written (.statement (.action a (t.span.join u.previous.span))) s u
  | decision {test : Decision} {thenArm elseArm : Option Block} {t : Token} {s u : State}
      (opens : Opens s t u) (judged : Judged test s u)
      (needed : armsOptional test = false → thenArm.isSome ∨ elseArm.isSome)
      (filled : u.Clean → thenArm.isSome ∨ elseArm.isSome →
        holdsStatement thenArm ∨ holdsStatement elseArm)
      (arms : ∀ body ∈ thenArm.toList ++ elseArm.toList, Written (.nested body) s u) :
      Written (.statement (.decision test thenArm elseArm (t.span.join u.previous.span))) s u
  | counted {c : Counter} {body : Block} {closing : Option Ident} {t : Token} {s u : State}
      (opens : Opens s t u) (has : Has s c.expressions (c.name :: closing.toList) u)
      (named : u.Clean → ∃ w ∈ s.rest.tokens, w.kind = .ident ∧ w.text = c.name.name)
      (closed : ∀ i ∈ closing, u.Clean → c.name.name = "" ∨ i.folded = c.name.folded)
      (inner : Written (.looped body) s u) :
      Written (.statement (.counted c body closing (t.span.join u.previous.span))) s u
  | loop {body : Block} {t : Token} {s u : State} (opens : Opens s t u)
      (inner : Written (.looped body) s u) :
      Written (.statement (.loop body (t.span.join u.previous.span))) s u
  | choice {found : List CaseArm} {t : Token} {s u : State} (onward : Onward s u)
      (opens : Opens s t u) (arms : ∀ a ∈ found, Written (.arm a) s u) :
      Written (.statement (.choice found (t.span.join u.previous.span))) s u
  | arm {cond : Expr} {body : Block} {t : Token} {o s u v : State} (before : Onward o s)
      (opens : Opens s t u) (hcond : Derives cond s u) (inner : Written (.nested body) s u)
      (behind : Onward u v) : Written (.arm (.mk cond body (t.span.join u.previous.span))) o v
  | nested {body : Block} {o s u v : State} (before : Onward o s)
      (inner : Written (.block body) s u) (behind : Onward u v) : Written (.nested body) o v
  | looped {body : Block} {o s u v : State} (before : Onward o s)
      (inner : Written (.block body) s.enter u) (behind : Onward u.leave v) :
      Written (.looped body) o v
  | nil {s u : State} (gap : Gap s u) : Written (.front []) s u
  | snoc {ss : Block} {st : Statement} {s m v u : State} (front : Written (.front ss) s m)
      (last : Written (.statement st) m v) (whole : v.split = none)
      (separated : st.isSeparatorExempt ∨ ∃ w : Token, w.kind.isSeparator ∧ Opens v w u)
      (gap : Gap v u) : Written (.front (ss ++ [st])) s u
  | closed {ss : Block} {s u : State} (front : Written (.front ss) s u) : Written (.block ss) s u
  | ended {ss : Block} {st : Statement} {s m v u : State} (front : Written (.front ss) s m)
      (last : Written (.statement st) m v) (whole : v.split = none) (gap : Gap v u) :
      Written (.block (ss ++ [st])) s u

namespace Written

variable {body : Block} {a : CaseArm}

/-- Whatever is written lies on the way. -/
theorem onward {n : Node} (h : Written n s u) : Onward s u := by
  induction h with
  | action _ told => exact told.has.onward
  | decision _ judged => exact judged.has.onward
  | counted _ has => exact has.onward
  | loop _ _ ih => exact ih
  | choice onward => exact onward
  | arm before _ hcond _ behind => exact before.trans (hcond.onward.trans behind)
  | nested before _ behind ih => exact before.trans (ih.trans behind)
  | looped before _ behind ih => exact before.trans (ih.leave.trans behind)
  | nil gap => exact gap.onward
  | snoc _ _ _ _ gap ih ih' => exact ih.trans (ih'.trans gap.onward)
  | closed _ ih => exact ih
  | ended _ _ _ gap ih ih' => exact ih.trans (ih'.trans gap.onward)

theorem past {n : Node} (h : Written n s u) : Past s u := h.onward

/-- A statement opens with a word and reaches to what was read last. -/
theorem exists_opens (h : Written (.statement st) s u) :
    ∃ t, Opens s t u ∧ st.span = t.span.join u.previous.span := by
  cases h with
  | action opens | decision opens | counted opens | loop opens | choice _ opens =>
    exact ⟨_, opens, rfl⟩

/-- No half of a token is left behind a statement that needs no separator. -/
theorem whole_of_exempt (h : Written (.statement st) s u) (hst : st.isSeparatorExempt) :
    u.split = none := by
  cases h with
  | action _ told => exact told.whole _ hst
  | decision | counted | loop | choice => cases hst

/-- Only separators are read between the statements of a block. -/
theorem skip (h : Written (.front ss) s u) (g : Gap u v) : Written (.front ss) s v := by
  cases h with
  | nil gap => exact .nil (gap.trans g)
  | snoc front last whole separated gap =>
    refine .snoc front last whole (separated.imp_right ?_) (gap.trans g)
    rintro ⟨w, hw, hopens⟩
    exact ⟨w, hw, hopens.before g.past⟩

theorem within (before : Onward o s) (h : Written (.nested body) s u) (behind : Onward u v) :
    Written (.nested body) o v := by
  cases h with
  | nested before' inner behind' => exact .nested (before.trans before') inner (behind'.trans behind)

theorem loopedWithin (before : Onward o s) (h : Written (.looped body) s u) (behind : Onward u v) :
    Written (.looped body) o v := by
  cases h with
  | looped before' inner behind' => exact .looped (before.trans before') inner (behind'.trans behind)

theorem armWithin (before : Onward o s) (h : Written (.arm a) s u) (behind : Onward u v) :
    Written (.arm a) o v := by
  cases h with
  | arm before' opens hcond inner behind' =>
    exact .arm (before.trans before') opens hcond inner (behind'.trans behind)

end Written

/-- A parser gives statements that it has read. -/
def Writes (statement : Parser Statement) : Prop :=
  ∀ s, Tries s statement fun st u => Written (.statement st) s u

/-- Half a token is the sign `=`. -/
theorem split_eq_none (hk : s.current.kind ≠ .equal) : s.split = none := by
  cases hsplit : s.split with
  | none => rfl
  | some whole =>
    refine absurd ?_ hk
    unfold State.current
    rw [hsplit]
    rfl

/-- A statement and the separator behind it are added to the front of a block. -/
theorem Written.separated (hfront : Written (.front ss) s u) (hlast : Written (.statement st) u v)
    (hk : v.current.kind.isSeparator) : Written (.front (ss ++ [st])) s v.advance.2 := by
  have hword := Kind.isWord_of_isSeparator hk
  refine .snoc hfront hlast (split_eq_none hword.2) (Or.inr ?_) (.advance hk)
  exact ⟨v.current, hk, rfl, hword, .refl _⟩

/-- A statement that needs no separator is added to the front of a block. -/
theorem Written.exempt (hfront : Written (.front ss) s u) (hlast : Written (.statement st) u v)
    (hst : st.isSeparatorExempt) : Written (.front (ss ++ [st])) s v :=
  .snoc hfront hlast (hlast.whole_of_exempt hst) (Or.inl hst) (.refl v)

/-! ## 2. Blocks -/

/-- A parser that is recovered from may end with its stand-in, but then there is an error, and
    something is consumed unless the file ends. -/
theorem goes_recover {α : Type} {p : Parser α} {standIn : α}
    {Q : α → State → Prop} (hp : Tries s p Q) :
    Goes s (recover standIn p) fun a u => Q a u ∨
      a = standIn ∧ ¬ u.Clean ∧ (s.current.kind ≠ .endOfFile → Consumes s u) := by
  refine Goes.look (outset_eq s) (Goes.bind hp fun r u hpast hr => ?_)
  cases r with
  | ok a => exact Goes.pure (Or.inl hr)
  | error fault =>
    refine (goes_reportFault fault).bind fun _ v hv hfault => ?_
    refine goes_synchronize.bind fun _ w₀ hw₀ hread => ?_
    refine (goes_noteRecovery _ _).bind fun _ w hnoted hw' => ?_
    have hw := hw₀.trans hnoted
    refine Goes.pure (Or.inr ⟨rfl, ?_, fun hne => ?_⟩)
    · exact fun hclean => hfault.2 hr (hw.clean hclean)
    · by_cases hend : v.current.kind = .endOfFile
      · have hmoved : v.current ≠ s.current := fun hsame => hne (hsame ▸ hend)
        exact (Consumes.of_current_ne (hpast.trans hv) hmoved).before hw
      · exact .after (hpast.trans hv) ((hread hend).before hnoted)

/-- A terminator that comes next is read over. -/
theorem goes_closeBlock (terminator : Keyword) (construct : String) (start : Span) :
    Goes s (closeBlock terminator construct start) fun _ u =>
      s.current.kind = .keyword terminator → u = s.advance.2 := by
  refine Goes.look (sees_eq s _) ?_
  split
  · exact goes_advance.bind fun _ _ _ hread => Goes.pure fun _ => hread.2
  · rename_i hno
    refine (goes_report _ _).bind fun _ u1 _ _ => ?_
    refine Goes.look (p := MonadState.get) rfl (Goes.pure fun hk => ?_)
    exact absurd (beq_iff_eq.mpr hk) hno

/-- A block so far: more may follow unless the file ends. -/
def Laid (ss : Block) (s u : State) : Prop :=
  Written (.front ss) s u ∨ Written (.block ss) s u ∧ u.current.kind = .endOfFile

section Statements

variable {statement : Parser Statement} (hst : Writes statement)

include hst

/-- A statement and the separator behind it are read behind the front of a block. -/
theorem tries_blockStatement (hfront : Written (.front ss) o s) : Tries s (do
      let st ← statement
      unless st.isSeparatorExempt do expectSeparator
      return some st) fun found u => Laid (ss ++ found.toList) o u ∧ Consumes s u := by
  refine Tries.regular fun hs => (hst s).bind fun st u1 _ hwritten => ?_
  obtain ⟨t, hopens, -⟩ := hwritten.exists_opens
  have hconsumes := hopens.consumes hs
  dsimp only
  split
  · rename_i hexempt
    exact Tries.pure ⟨Or.inl (hfront.exempt hwritten hexempt), hconsumes⟩
  · refine tries_expectSeparator.bind fun _ u2 h2 hread => Tries.pure ⟨?_, hconsumes.before h2⟩
    rcases hread with ⟨hseparator, rfl⟩ | ⟨hend, rfl⟩
    · exact Or.inl (hfront.separated hwritten hseparator)
    · have hwhole : u2.split = none := split_eq_none (by rw [hend]; decide)
      exact Or.inr ⟨.ended hfront hwritten hwhole (.refl u2), hend⟩

theorem goes_blockTurn (stop : BlockEnd) (statements : Array Statement)
    (h : Laid statements.toList o s) : Goes s (blockTurn statement stop statements)
      (Turns (fun found u => Laid found.toList o u)
        (fun body u => Written (.block body) o u ∧ (stop = .file → u.current.kind = .endOfFile)) s) := by
  -- a block that is at its end already stands in front of the end of the file: nothing is read
  rcases h with hfront | ⟨hblock, hend⟩
  · refine goes_skipNewlines.bind fun _ u1 h1 hgap => ?_
    have hfront1 := hfront.skip hgap.1
    refine Goes.look (sees_eq u1 .endOfFile) (Goes.look (looks_atBlockEnd stop u1) ?_)
    split
    · rename_i hstop
      refine Goes.pure ⟨.closed hfront1, ?_⟩
      rintro rfl
      rcases Bool.or_eq_true_iff.mp hstop with hend | hno
      · exact eq_of_beq hend
      · cases hno
    · rename_i hgo
      have hne : u1.current.kind ≠ .endOfFile := fun hend => hgo (by simp [hend])
      refine (goes_recover (tries_blockStatement hst hfront1)).bind fun found u2 h2 hfound =>
        Goes.pure ?_
      rcases hfound with ⟨hlaid, hconsumes⟩ | ⟨rfl, hclean, hconsumes⟩
      · refine ⟨?_, .after h1 hconsumes⟩
        simpa using hlaid
      · refine ⟨Or.inl ?_, .after h1 (hconsumes hne)⟩
        simpa using hfront1.skip (.of_not_clean h2 hclean)
  · have hquiet : s.current.kind ≠ .newline := by
      rw [hend]
      decide
    refine Goes.look (skipNewlines_eq_self hquiet) ?_
    refine Goes.look (sees_eq s .endOfFile) (Goes.look (looks_atBlockEnd stop s) ?_)
    rw [if_pos (by simp [hend])]
    exact Goes.pure ⟨hblock, fun _ => hend⟩

/-- **A block is written**, and one that ends with the file reaches its end. -/
theorem goes_block (stop : BlockEnd) : Goes s (block statement stop) fun body u =>
    Written (.block body) s u ∧ (stop = .file → u.current.kind = .endOfFile) :=
  Goes.loop (blockTurn statement stop) (J := fun found u => Laid found.toList s u)
    (Or.inl (.nil (.refl s))) fun found _ _ h => goes_blockTurn hst stop found h

theorem tries_lineTurn (stopsAtElse : Bool) (statements : Array Statement)
    (h : Written (.front statements.toList) o s) :
    Tries s (lineTurn statement stopsAtElse statements)
      (Turns (fun found u => Written (.front found.toList) o u)
        (fun body u => Written (.block body) o u) s) := by
  refine Tries.look (currentKind_eq s) ?_
  dsimp only
  split
  · exact Tries.pure (.closed h)
  · refine Tries.regular fun hs => (hst s).bind fun st u1 h1 hwritten => ?_
    obtain ⟨t, hopens, -⟩ := hwritten.exists_opens
    have hconsumes := hopens.consumes hs
    refine Tries.after (goes_consume .semicolon) fun found u2 h2 hfound => ?_
    -- a `;` stands behind the statement, or the end of the line, or it needs no separator
    rcases hfound with ⟨rfl, hk, rfl⟩ | ⟨rfl, -, rfl⟩
    · have hseparator : u1.current.kind.isSeparator := by
        rw [hk]
        rfl
      have hfront : Written (.front (statements.push st).toList) o u1.advance.2 := by
        rw [Array.toList_push]
        exact h.separated hwritten hseparator
      exact Tries.pure ⟨hfront, hconsumes.before h2⟩
    · refine Tries.look (currentKind_eq u2) ?_
      split
      · rename_i hend
        have hwhole : u2.split = none := split_eq_none fun hequal => by
          rw [hequal] at hend
          simp at hend
        have hdone : Written (.block (statements.push st).toList) o u2 := by
          rw [Array.toList_push]
          exact .ended h hwritten hwhole (.refl u2)
        exact Tries.pure hdone
      · split
        · rename_i hexempt
          have hfront : Written (.front (statements.push st).toList) o u2 := by
            rw [Array.toList_push]
            exact h.exempt hwritten hexempt
          exact Tries.pure ⟨hfront, hconsumes⟩
        · exact Tries.look (current_eq u2) (tries_failHere rfl)

theorem tries_lineBlock (stopsAtElse : Bool) :
    Tries s (lineBlock statement stopsAtElse) fun body u => Written (.block body) s u :=
  Tries.tryLoop (lineTurn statement stopsAtElse)
    (J := fun found u => Written (.front found.toList) s u) (.nil (.refl s)) fun found _ _ h => tries_lineTurn hst stopsAtElse found h

/-! ## 3. Arms -/

theorem tries_arm (kind : RegionKind) (start : Span) :
    Tries s (arm statement kind start) fun body u => Written (.nested body) s u := by
  refine Tries.after goes_begin fun _ u0 h0 _ => Tries.look (looks_atLineEnd u0) ?_
  split
  · refine tries_skip.bind fun _ u1 h1 _ => ?_
    refine Tries.after (goes_block hst .arm) fun body u2 _ hbody => ?_
    refine Tries.after (goes_closeBlock _ _ _) fun stop u3 h3 _ => ?_
    refine Tries.after (goes_recordRegion _ _) fun _ u4 h4 _ => Tries.pure ?_
    exact .nested (h0.trans h1) hbody.1 (h3.trans h4)
  · exact (tries_lineBlock hst _).mono fun body u _ h => .nested h0 h (.refl u)

theorem tries_armAfter? (word : Keyword) (kind : RegionKind) :
    Tries s (armAfter? statement word kind) fun found u =>
      ∀ body ∈ found.toList, Written (.nested body) s u := by
  refine Tries.look (sees_eq s _) ?_
  split
  · refine Tries.after goes_advance fun start u1 h1 _ => ?_
    refine (tries_arm hst kind start.span).bind fun body u2 _ h2 => Tries.pure ?_
    exact List.forall_mem_singleton.mpr (.within h1 h2 (.refl u2))
  · exact Tries.pure (List.forall_mem_nil _)

/-- An arm that is needed is there, and arms that hold nothing are an error. -/
theorem tries_arms (optional : Bool) : Tries s (arms statement optional) fun found u =>
    (optional = false → found.1.isSome ∨ found.2.isSome) ∧
      (u.Clean → found.1.isSome ∨ found.2.isSome →
        holdsStatement found.1 ∨ holdsStatement found.2) ∧
      ∀ body ∈ found.1.toList ++ found.2.toList, Written (.nested body) s u := by
  refine Tries.look (current_eq s) ?_
  refine (tries_armAfter? hst .THEN .thenArm).bind fun thenArm u1 h1 hthen => ?_
  refine (tries_armAfter? hst .ELSE .elseArm).bind fun elseArm u2 h2 helse => ?_
  -- the arms are read one after the other, and nothing behind them changes what they are
  have hall {u : State} (hu : Onward u2 u) (body : Block)
      (hbody : body ∈ thenArm.toList ++ elseArm.toList) : Written (.nested body) s u := by
    rcases List.mem_append.mp hbody with hin | hin
    · exact .within (.refl s) (hthen body hin) (h2.trans hu)
    · exact .within h1 (helse body hin) hu
  dsimp only
  split
  · rename_i hnone
    obtain ⟨rfl, rfl⟩ : thenArm = none ∧ elseArm = none := by
      simpa using hnone
    split
    · rename_i hoptional
      refine Tries.pure ⟨fun hneeded => ?_, fun _ hsome => ?_, hall (.refl u2)⟩
      · rw [hneeded] at hoptional
        cases hoptional
      · simp at hsome
    · exact Tries.throw rfl
  · rename_i hsome
    have hthere : thenArm.isSome ∨ elseArm.isSome := by
      cases thenArm <;> cases elseArm <;> simp at hsome ⊢
    split
    · rename_i hholds
      exact Tries.pure ⟨fun _ => hthere, fun _ _ => Bool.or_eq_true_iff.mp hholds, hall (.refl u2)⟩
    · refine Tries.look (spanFrom_eq u2 _) ?_
      refine Tries.after (goes_report _ _) fun _ u3 h3 hreport => Tries.pure ?_
      exact ⟨fun _ => hthere, fun hclean => absurd hclean (hreport.2 rfl), hall h3⟩

/-! ## 4. Loops -/

omit hst in
theorem takes_bounds : Takes bounds
    (fun found => found.1 :: found.2.1 :: found.2.2.toList) fun _ => [] := by
  intro s
  refine ((tries_expected _).has (.start s)).bind fun _ u1 _ h => ?_
  refine (derives_expression.behind h).bind fun start u2 _ h => ?_
  refine ((tries_expected _).has h).bind fun _ u3 _ h => ?_
  refine (derives_expression.behind h).bind fun limit u4 _ h => ?_
  exact ((takes_expressionAfter? .STEP).behind h).bind fun step u5 _ h => Tries.pure h

/-- The header of a counting loop: its parts were read, or stand where the loop starts. Only with an
    error is its variable none of the tokens. -/
def Counts (o s : State) (c : Counter) (u : State) : Prop :=
  Has o c.expressions [c.name] u ∧
    (u.Clean → ∃ w ∈ s.rest.tokens, w.kind = .ident ∧ w.text = c.name.name)

omit hst in
theorem goes_counter {start : Span} (hstart : Finds start o s) (hled : Led s) :
    Goes s (counter start) (Counts o s) := by
  -- where something is missing the bounds are empty and stand for the start
  have hmissing {name : Ident} {v : State} (hv : Onward s v) (hname : Placed name o v) :
      Has o (Counter.expressions ⟨name, .missing start, .missing start, none⟩) [name] v := by
    have hthere : Held (.missing start) o v := (Derives.string "" (hstart.before hv)).held
    refine ⟨hstart.onward.trans hv, ?_, List.forall_mem_singleton.mpr hname⟩
    exact List.forall_mem_cons.mpr ⟨hthere, List.forall_mem_singleton.mpr hthere⟩
  refine Goes.regular fun hs => Goes.of_since
    (GoesWith.behind (lasting_since s) tries_expectIdent fun r u1 h1 hr => ?_)
  cases r with
  | error fault =>
    have hfails : Tries u1 (throw fault : Parser Counter) fun _ _ => False := Tries.throw hr
    refine .of_goes (lasting_since s) ((goes_recover hfails).mono fun c u h hc => ?_)
    rcases hc with hno | ⟨rfl, hclean, -⟩
    · exact hno.elim
    · have hstands := (hstart.before (h1.trans h)).stands
      exact ⟨hmissing (h1.trans h) (.of_not_clean hstands hclean), fun hu => absurd hu hclean⟩
  | ok t =>
    obtain ⟨hk, hopens⟩ : t.kind = .ident ∧ Opens s t u1 := hr
    have ht : t ∈ s.rest.tokens := by
      have hword : s.current.kind.IsWord := hopens.next ▸ hopens.word
      rw [(hs.rest_of_isWord hword).2, hopens.next]
      exact List.mem_cons_self
    refine (since_noteVariable hled hopens).bind (lasting_since s) fun _ u2 ⟨_, h2⟩ hpast hnoted => ?_
    have hname : Placed ⟨t.text, .assignment, t.span⟩ o u2 := by
      refine .after hstart.onward.toPast (.of_names ⟨h2, (Stands.of_opens hopens).before hpast, ?_⟩)
      exact fun hs => hnoted (h1.symbols hs).1
    have hread : Has o [] [⟨t.text, .assignment, t.span⟩] u2 := .name (hstart.onward.trans h2) hname
    refine Goes.mono (goes_recover (Q := Counts o s) ?_) fun c u h hc => ?_
    · refine (takes_bounds.behind hread).bind fun found u3 _ h3 => Tries.pure ⟨?_, fun _ => ?_⟩
      · simpa [Counter.expressions] using h3
      · exact ⟨t, ht, hk, rfl⟩
    · rcases hc with hcounts | ⟨rfl, hclean, -⟩
      · exact hcounts
      · exact ⟨hmissing (h2.trans h) (hname.before h), fun hu => absurd hu hclean⟩

theorem goes_loopBody (stop : BlockEnd) :
    Goes s (loopBody statement stop) fun body u => Written (.looped body) s u := by
  refine goes_begin.bind fun _ m hm _ hregular => ?_
  obtain ⟨hpast, hbody, -⟩ :=
    goes_block hst stop (s := m.enter) ⟨hregular.ended, hregular.half⟩
  exact ⟨hpast.leave, .looped hm hbody (.refl _)⟩

omit hst in
/-- The variable behind a `next` is another one only with an error. -/
theorem goes_closingName? (name : Ident) (hled : Led s) :
    Goes s (closingName? name) fun closing u => Has s [] closing.toList u ∧
      ∀ i ∈ closing, u.Clean → name.name = "" ∨ i.folded = name.folded := by
  refine Goes.look (sees_eq s _) ?_
  split
  · rename_i hk
    have hword : s.current.kind.IsWord := by
      rw [eq_of_beq hk]
      decide
    refine Goes.of_since (.behind (lasting_since s) (goes_word hword) fun t u1 h1 hread => ?_)
    obtain ⟨rfl, hopens⟩ := hread
    refine (since_noteVariable hled hopens).bind (lasting_since s) fun _ u2 ⟨_, h2⟩ hpast hnoted => ?_
    have hname : Names ⟨s.current.text, .reference, s.current.span⟩ s u2 :=
      ⟨h2, (Stands.of_opens hopens).before hpast, fun hs => hnoted (h1.symbols hs).1⟩
    have hread : Has s [] [⟨s.current.text, .reference, s.current.span⟩] u2 :=
      .name h2 (.of_names hname)
    dsimp only
    split
    · refine (goes_report _ _).bind fun _ u3 h3 hreport => Goes.pure ⟨hread.before h3, ?_⟩
      exact fun _ _ hclean => absurd hclean (hreport.2 rfl)
    · rename_i hsame
      refine Goes.pure ⟨hread, fun i hi _ => ?_⟩
      cases hi
      by_cases hempty : name.name = ""
      · exact Or.inl hempty
      · refine Or.inr (Classical.byContradiction fun hne => hsame ?_)
        simpa [Ident.folded, Token.folded, hempty] using hne
  · exact Goes.pure ⟨.start s, fun _ hi => absurd hi (Option.not_mem_none _)⟩

/-- A statement once its span is known: it reaches from the word that it opens with to what was read
    last. -/
def Builds (s : State) (build : Span → Statement) (u : State) : Prop :=
  ∀ t, Opens s t u → Written (.statement (build (t.span.join u.previous.span))) s u

theorem goes_countedLoop (ho : o.Regular) (hk : o.current.kind = .keyword .FOR) :
    Goes o.advance.2 (countedLoop statement o.current.span) (Builds o) := by
  have hword : o.current.kind.IsWord := hk ▸ Kind.isWord_keyword .FOR
  have hfront : Onward o o.advance.2 := .advance o
  have hled : Led o.advance.2 := led_advance ho (by rw [hk]; rfl)
  refine (goes_counter (.of_next hword rfl) hled).bind fun c u1 h1 hc => ?_
  refine (goes_loopBody hst .counted).bind fun body u2 h2 hbody => ?_
  refine Goes.look (sees_eq u2 _) (Goes.regular fun hu2 => ?_)
  refine (goes_closeBlock _ _ _).dropped.bind fun _ u3 h3 hclose => ?_
  -- what is done behind the body is the same with a name behind `next` and without one
  have hend {closing : Option Ident} {u : State} (hu : Onward u3 u)
      (hclosing : Has u3 [] closing.toList u)
      (hclosed : ∀ i ∈ closing, u.Clean → c.name.name = "" ∨ i.folded = c.name.folded) :
      Goes u (do
        recordRegion .counted (← spanFrom o.current.span)
        return Statement.counted c body closing) (Builds o) := by
    refine Goes.look (spanFrom_eq u o.current.span) ?_
    refine (goes_recordRegion _ _).bind fun _ v hv _ => Goes.pure fun t' hopens => ?_
    have hback : Onward u1 v := (h2.trans h3).trans (hu.trans hv)
    have hhas := (hc.1.before (h2.trans h3)).append (hclosing.before hv)
    refine .counted hopens (by simpa using hhas) (fun hclean => ?_)
      (fun i hi hclean => hclosed i hi (hv.clean hclean)) ?_
    · obtain ⟨w, hw, hname⟩ := hc.2 (hback.clean hclean)
      exact ⟨w, hfront.suffix.subset hw, hname⟩
    · exact .loopedWithin (hfront.trans h1) hbody (h3.trans (hu.trans hv))
  dsimp only
  split
  · rename_i hnext
    have hled' : Led u3 := by
      have hkind : u2.current.kind = .keyword .NEXT := eq_of_beq hnext
      rw [hclose hkind]
      exact led_advance hu2 (by rw [hkind]; rfl)
    exact (goes_closingName? c.name hled').bind fun closing u4 h4 h => hend h4 h.1 h.2
  · exact hend (.refl u3) (.start u3) fun _ hi => absurd hi (Option.not_mem_none _)

theorem goes_plainLoop (o : State) :
    Goes o.advance.2 (plainLoop statement o.current.span) (Builds o) := by
  refine (goes_loopBody hst .loop).bind fun body u1 h1 hbody => ?_
  refine (goes_closeBlock _ _ _).dropped.bind fun _ u2 h2 _ => ?_
  refine Goes.look (spanFrom_eq u2 o.current.span) ?_
  refine (goes_recordRegion _ _).bind fun _ u3 h3 _ => Goes.pure fun t' hopens => ?_
  exact .loop hopens (.loopedWithin (.advance o) hbody (h2.trans h3))

/-! ## 5. Choices -/

/-- An arm of a choice, the keyword of which comes next. -/
theorem goes_caseArm (hk : s.current.kind = .keyword .CASE) :
    Goes s (caseArm statement) fun a u => Written (.arm a) s u ∧ Consumes s u := by
  have hword : s.current.kind.IsWord := by
    rw [hk]
    exact Kind.isWord_keyword .CASE
  refine Goes.regular fun hs => goes_advance.bind fun token u1 h1 hread => ?_
  obtain ⟨rfl, rfl⟩ := hread
  have hopens : Opens s s.current s.advance.2 := ⟨rfl, hword, .refl _⟩
  have hcond : Tries s.advance.2 (do
      let cond ← expression
      expectSeparator
      return cond) fun cond u => Derives cond s.advance.2 u :=
    (derives_expression _).bind fun cond u2 _ h2 =>
      tries_expectSeparator.bind fun _ u3 h3 _ => Tries.pure (h2.before h3)
  refine Goes.bind (goes_recover hcond) fun cond u2 h2 h => ?_
  have hderives : Derives cond s u2 := by
    rcases h with hcond | ⟨rfl, -, -⟩
    · exact hcond.after h1
    · exact .string "" ((Meets.of_next hword rfl).before h2)
  refine (goes_block hst .caseArm).bind fun body u3 h3 hbody => ?_
  refine Goes.look (spanFrom_eq u3 _) ?_
  refine (goes_recordRegion _ _).bind fun _ u4 h4 _ => Goes.pure ⟨?_, ?_⟩
  · exact .arm (.refl s) (hopens.before (h2.trans h3)) (hderives.before h3)
      (.nested (h1.trans h2) hbody.1 (.refl u3)) h4
  · exact (hopens.consumes hs).before (h2.trans (h3.trans h4))

/-- The arms of a choice were read. -/
def Armed (s : State) (found : List CaseArm) (u : State) : Prop := ∀ a ∈ found, Written (.arm a) s u

theorem goes_choiceTurn (start : Span) (found : Array CaseArm) (h : Armed o found.toList s)
    (hpast : Onward o s) : Goes s (choiceTurn statement start found)
      (Turns (fun found u => Onward o u ∧ Armed o found.toList u) (Armed o) s) := by
  have hkeep {u : State} (hu : Onward s u) : Armed o found.toList u :=
    fun a ha => .armWithin (.refl o) (h a ha) hu
  refine goes_skipNewlines.bind fun _ u1 h1 hgap => ?_
  refine Goes.look (sees_eq u1 _) ?_
  split
  · rename_i hk
    refine (goes_caseArm hst (eq_of_beq hk)).bind fun arm u2 h2 harm => Goes.pure ⟨⟨?_, ?_⟩, ?_⟩
    · exact hpast.trans (h1.trans h2)
    · rw [Array.toList_push]
      refine List.forall_mem_append.mpr ⟨hkeep (h1.trans h2), List.forall_mem_singleton.mpr ?_⟩
      exact .armWithin (hpast.trans h1) harm.1 (.refl u2)
    · exact .after h1 harm.2
  · refine Goes.look (sees_eq u1 _) (Goes.look (nextKind_eq u1) ?_)
    split
    · refine goes_skip.bind fun _ u2 h2 _ => goes_skip.bind fun _ u3 h3 _ => Goes.pure ?_
      exact hkeep (h1.trans (h2.trans h3))
    · refine Goes.look (sees_eq u1 _) ?_
      split
      · exact (goes_report _ _).bind fun _ u2 h2 _ => Goes.pure (hkeep (h1.trans h2))
      · rename_i hno
        refine Goes.look (current_eq u1) ?_
        refine (goes_report _ _).bind fun _ u2 h2 hreport => ?_
        refine (goes_skipWhile _ rfl).bind fun _ u3 h3 hskipped => Goes.pure ⟨⟨?_, ?_⟩, ?_⟩
        · exact hpast.trans (h1.trans (h2.trans h3))
        · exact hkeep (h1.trans (h2.trans h3))
        · -- neither an empty line nor the end of the file comes next, so something is skipped
          refine .after h1 (.of_current_ne (h2.trans h3).toPast fun hsame => ?_)
          have hstop := hskipped.1
          rw [hsame] at hstop
          simp [hgap.2] at hstop
          exact hno (by simp [hstop])

theorem tries_choice (hfront : Onward o s) (start : Span) :
    Tries s (choice statement start) (Builds o) := by
  refine (tries_expected _).bind fun _ u1 h1 _ => ?_
  refine tries_expectSeparator.bind fun _ u₂ h₂ _ => Tries.after goes_begin fun _ u2 hu2 _ => ?_
  have h2 := h₂.trans hu2
  have harms : Goes u2 (choiceArms statement start) (Armed u2) :=
    Goes.loop (choiceTurn statement start) (J := fun found u => Onward u2 u ∧ Armed u2 found.toList u)
      ⟨.refl u2, fun _ ha => absurd ha List.not_mem_nil⟩ fun found u _ h =>
        goes_choiceTurn hst start found h.2 h.1
  refine Tries.after harms fun found u3 h3 hfound => Tries.look (spanFrom_eq u3 start) ?_
  refine Tries.after (goes_recordRegion _ _) fun _ u4 h4 _ => Tries.pure fun t hopens => ?_
  have hbefore := hfront.trans (h1.trans h2)
  exact .choice (hbefore.trans (h3.trans h4)) hopens fun a ha => .armWithin hbefore (hfound a ha) h4

/-! ## 6. Statements -/

theorem tries_decision (hfront : Onward o s) {test : Parser Decision}
    (htest : Tries s test fun d u => Judged d s u) :
    Tries s (decision statement test) (Builds o) := by
  refine htest.bind fun d u1 h1 hd => ?_
  refine (tries_arms hst _).bind fun found u2 h2 harms => Tries.pure fun t hopens => ?_
  obtain ⟨hneeded, hfilled, hall⟩ := harms
  have hjudged : Judged d o u2 := ⟨.after hfront (hd.has.before h2), hd.column⟩
  exact .decision hopens hjudged hneeded hfilled fun body hbody =>
    .within (hfront.trans h1) (hall body hbody) (.refl u2)

omit hst in
/-- An action behind its keyword, as a statement. -/
theorem tries_action (hfront : Onward o s) {p : Parser Action}
    (hp : Tries s p fun a u => Continues a s u) : Tries s (Statement.action <$> p) (Builds o) :=
  Tries.map (hp.mono fun _ _ _ ha _ hopens => .action hopens (ha.after hfront))

/-- A statement behind its keyword. -/
theorem tries_statementAfter? (ho : o.Regular) {word : Keyword} (hk : o.current.kind = .keyword word)
    {p : Parser (Span → Statement)} (hp : statementAfter? statement o.current word = some p) :
    Tries o.advance.2 p (Builds o) := by
  have hfront : Onward o o.advance.2 := .advance o
  have hled (hnames : (Kind.keyword word).namesVariable) : Led o.advance.2 :=
    led_advance ho (hk ▸ hnames)
  unfold statementAfter? at hp
  split at hp
  · cases hp
    exact Tries.step (goes_countedLoop hst ho hk)
  · cases hp
    exact Tries.step (goes_plainLoop hst o)
  · cases hp
    exact tries_choice hst hfront _
  · split at hp
    · rename_i test htest
      cases hp
      exact tries_decision hst hfront (judged_decisionAfter? hled htest)
    · obtain ⟨a, ha, rfl⟩ := Option.map_eq_some_iff.mp hp
      exact tries_action hfront (continues_actionAfter? hled ha)

omit hst in
/-- An action that consumes something, as a statement. -/
theorem tries_ownAction {p : Parser Action} (hp : Tries s p fun a u => Told a s u ∧ Consumes s u) :
    Tries s (Statement.action <$> p) fun build u => Builds s build u ∧ Consumes s u :=
  Tries.map (hp.mono fun _ _ _ h => ⟨fun _ hopens => .action hopens h.1, h.2⟩)

/-- A statement whose keyword comes next. -/
theorem tries_keywordStatement {word : Keyword} (hk : s.current.kind = .keyword word) :
    Tries s (keywordStatement statement s.current word) fun build u =>
      Builds s build u ∧ Consumes s u := by
  have hword : s.current.kind.IsWord := by
    rw [hk]
    exact Kind.isWord_keyword word
  refine Tries.regular fun hs => Tries.look (nextKind_eq s) ?_
  split
  · refine tries_ownAction (told_assignmentOrCall ?_)
    rw [hk]
    exact Kind.isName_keyword word
  · split
    · rename_i p hp
      refine tries_skip.bind fun _ u1 _ hread => ?_
      subst hread
      have hopens : Opens s s.current s.advance.2 := ⟨rfl, hword, .refl _⟩
      refine (tries_statementAfter? hst hs hk hp).mono fun build u h hbuilds => ⟨hbuilds, ?_⟩
      exact (hopens.consumes hs).before h
    · exact tries_failHere rfl

/-- **One layer of statements** reads what it gives if the statements within it do. -/
theorem writes_statementLayer : Writes (statementLayer statement) := by
  intro s
  have hend {p : Parser (Span → Statement)} (hword : s.current.kind.IsWord)
      (hk : s.current.kind ≠ .greaterEqual)
      (hp : Tries s p fun build u => Builds s build u ∧ Consumes s u) : Tries s (do
        let build ← p
        return build (← spanFrom s.current.span)) fun st u => Written (.statement st) s u := by
    refine Tries.regular fun hs => hp.bind fun build u1 h1 hbuild => ?_
    refine Tries.look (spanFrom_eq u1 _) (Tries.pure ?_)
    exact hbuild.1 _ (.of_consumes hs h1 hbuild.2 hword hk)
  refine Tries.look (current_eq s) ?_
  dsimp only
  split
  · rename_i hk
    have hword : s.current.kind.IsWord := by
      rw [hk]
      decide
    refine tries_skip.bind fun _ u1 h1 hadvance => ?_
    refine Tries.given (Tries.look (spanFrom_eq u1 _) (Tries.pure ?_))
    have hopens : Opens s s.current u1 := ⟨rfl, hword, hadvance ▸ .refl _⟩
    refine .action hopens ⟨.of_onward h1, trivial, nofun, nofun, fun _ _ => ?_, nofun, nofun⟩
    rw [hadvance]
    exact s.split_advance
  · rename_i hk
    have hword : s.current.kind.IsWord ∧ s.current.kind ≠ .greaterEqual := by
      rw [hk]
      decide
    refine Tries.look (nextKind_eq s) ?_
    split
    · exact hend hword.1 hword.2 (tries_ownAction (told_labelAction hk))
    · exact hend hword.1 hword.2 (tries_ownAction (told_assignmentOrCall (Or.inl hk)))
  · rename_i hk
    have hword : s.current.kind.IsWord ∧ s.current.kind ≠ .greaterEqual := by
      rw [hk]
      decide
    exact hend hword.1 hword.2 (tries_ownAction (told_assignmentOrCall (Or.inr (Or.inl hk))))
  · rename_i hk
    have hword : s.current.kind.IsWord ∧ s.current.kind ≠ .greaterEqual := by
      rw [hk]
      decide
    exact hend hword.1 hword.2 (tries_ownAction told_insertAction)
  · rename_i word hk
    have hword : s.current.kind.IsWord ∧ s.current.kind ≠ .greaterEqual := by
      rw [hk]
      exact ⟨Kind.isWord_keyword word, nofun⟩
    exact hend hword.1 hword.2 (tries_keywordStatement hst hk)
  · exact Tries.fails (p := failHere _) rfl rfl

end Statements

theorem writes_nestUpTo (depth : Nat) : Writes (nestUpTo statementLayer depth) :=
  of_layers Writes statementLayer (fun _ => Tries.throw rfl) (fun _ => writes_statementLayer) depth

/-- **A statement** is written. -/
theorem writes_statement : Writes statement := fun s => Tries.get (writes_nestUpTo _ s)

end Grammar

end BasicCheck
