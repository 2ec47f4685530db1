import BasicCheck.Parse.Block
import BasicCheck.Proofs.Parse.Decision
import BasicCheck.Proofs.Statement.Tree

/-!
# Runs through statements and blocks

Every statement starts at a token of its own, and so does every statement within it; together they
name only what has been read (`Laid`). The keyword of a statement has been read before the rest of it,
which is why the parts of the grammar behind a keyword are judged together with it (`Shapes`). What
is dropped after a fault leaves its tokens unused, so that blocks are laid whatever happens in them
(**`leads_block`**); and as a fault that drops anything is an error, the labels of a block are all that
are declared while it is read if there is no error (`Accounts`).
-/

namespace BasicCheck.Parse

/-! ## 1. Statements on their tokens -/

/-- Where a token starts. -/
def startOf (t : Token) : Place := t.span.start

/-- Statements account for what is done while they are read: the loops among them write their
    variables, the labels that they jump to are referred to, and if there is no error, they hold the
    labels that are declared. -/
structure Accounts (ss : List Statement) (more : List Event) : Prop where
  counters : ∀ st ∈ ss, st.WritesCounter
  jumps : ∀ st ∈ ss, ∀ i ∈ Reachability.jumpTargets st, Notes ⟨.label, i.folded⟩ more
  labels : Clean more → ss.filterMap Statement.label? = declaredBy more

namespace Accounts

variable {a b : List Statement} {st : Statement} {trace more : List Event}

theorem nil (hmore : declaredBy more = []) : Accounts [] more :=
  ⟨List.forall_mem_nil _, List.forall_mem_nil _, fun _ => hmore.symm⟩

theorem dropped (hmore : ¬ Clean more) : Accounts [] more :=
  ⟨List.forall_mem_nil _, List.forall_mem_nil _, fun hclean => absurd hclean hmore⟩

theorem append (h : Accounts a trace) (k : Accounts b more) :
    Accounts (a ++ b) (trace ++ more) where
  counters := List.forall_mem_append.mpr ⟨h.counters, k.counters⟩
  jumps := List.forall_mem_append.mpr
    ⟨fun st hst i hi => (h.jumps st hst i hi).before more,
      fun st hst i hi => (k.jumps st hst i hi).behind trace⟩
  labels hclean := by
    rw [List.filterMap_append, declaredBy_append, h.labels hclean.left, k.labels hclean.right]

theorem before (h : Accounts a trace) (hmore : declaredBy more = []) :
    Accounts a (trace ++ more) := by
  have hall := h.append (nil hmore)
  rwa [List.append_nil] at hall

theorem behind (h : Accounts a more) (htrace : declaredBy trace = []) :
    Accounts a (trace ++ more) :=
  (nil htrace).append h

/-- A statement in front that neither is a label nor jumps to one. -/
theorem cons (h : Accounts a more) (hcounter : st.WritesCounter)
    (hjumps : Reachability.jumpTargets st = []) (hlabel : st.label? = none) :
    Accounts (st :: a) more where
  counters := List.forall_mem_cons.mpr ⟨hcounter, h.counters⟩
  jumps := by
    refine List.forall_mem_cons.mpr ⟨?_, h.jumps⟩
    rw [hjumps]
    exact List.forall_mem_nil _
  labels hclean := by
    rw [List.filterMap_cons_none hlabel]
    exact h.labels hclean

end Accounts

/-- Statements each of which starts at another token that a run has read, and which name only what it
    has read. -/
structure Laid (ss : List Statement) (more : List Event) : Prop where
  starts : Fits startOf (ss.map (·.span.start)) more
  names : Names (ss.flatMap Statement.idents) more
  accounts : Accounts ss more

namespace Laid

variable {a b : List Statement} {trace more : List Event}

theorem nil (hmore : declaredBy more = []) : Laid [] more := ⟨Fits.nil, Fits.nil, .nil hmore⟩

theorem dropped (hmore : ¬ Clean more) : Laid [] more := ⟨Fits.nil, Fits.nil, .dropped hmore⟩

theorem append (h : Laid a trace) (k : Laid b more) : Laid (a ++ b) (trace ++ more) where
  starts := by
    rw [List.map_append]
    exact h.starts.append k.starts
  names := by
    rw [List.flatMap_append]
    exact h.names.append k.names
  accounts := h.accounts.append k.accounts

theorem before (h : Laid a trace) (hmore : declaredBy more = []) : Laid a (trace ++ more) :=
  ⟨h.starts.before more, h.names.before more, h.accounts.before hmore⟩

theorem behind (h : Laid a more) (htrace : declaredBy trace = []) : Laid a (trace ++ more) :=
  ⟨h.starts.behind trace, h.names.behind trace, h.accounts.behind htrace⟩

end Laid

variable {o s u : State} {trace more : List Event} {h : At o trace s}

/-- What has been read since a state comes from its unread tokens. -/
theorem At.rest_eq (h : At o trace s) (k : At o (trace ++ more) u) :
    s.rest.tokens = readBy more ++ u.rest.tokens := by
  have h1 := h.run.tokens_eq
  have h2 := k.run.tokens_eq
  rw [h1, readBy_append, List.append_assoc] at h2
  exact List.append_cancel_left h2

/-- What has been read since a word came next begins with it. -/
theorem At.readBy_eq (h : At o trace s) (k : At o (trace ++ more) u)
    (hword : s.current.kind.IsWord) (hread : readBy more ≠ []) :
    ∃ rest, readBy more = s.current :: rest := by
  have hhead := (State.head?_of_isWord h.state_sound hword).2
  rw [h.rest_eq k] at hhead
  cases hmore : readBy more with
  | nil => exact absurd hmore hread
  | cons t rest =>
    rw [hmore] at hhead
    cases hhead
    exact ⟨rest, rfl⟩

/-- The token read last starts where the span read last starts. -/
theorem State.start_previous {s : State} (hs : s.Sound) {t : Token} (ht : s.last = some t) :
    s.previous.span.start = t.span.start := by
  unfold previous
  split
  · rename_i whole hsplit
    have hlast := hs.split hsplit
    rw [ht] at hlast
    cases hlast
    rfl
  · rw [ht]
    rfl

/-- A statement starts where its first token starts. -/
theorem At.start_join (h : At o trace s) (k : At o (trace ++ more) u)
    (hword : s.current.kind.IsWord) (hread : readBy more ≠ []) :
    (s.current.span.join u.previous.span).start = s.current.span.start := by
  obtain ⟨rest, hrest⟩ := h.readBy_eq k hword hread
  have hlast : ∃ t ∈ readBy more, u.last = some t := by
    refine ⟨_, List.getLast_mem hread, ?_⟩
    rw [k.run.last_eq, readBy_append, List.getLast?_append, List.getLast?_eq_some_getLast hread]
    rfl
  obtain ⟨t, ht, hlast⟩ := hlast
  have hle : s.current.span.start ≤ t.span.start := by
    have horder := h.state_sound.order
    rw [h.rest_eq k, hrest] at horder
    rw [hrest] at ht
    rcases List.mem_cons.mp ht with rfl | ht
    · exact Place.le_refl _
    · have hbefore := List.rel_of_pairwise_cons horder (List.mem_append_left _ ht)
      exact Place.le_of_lt hbefore.1
  show (if _ ≤ _ then _ else _) = _
  rw [State.start_previous k.state_sound hlast, if_pos hle]

/-- What a statement is made of behind its first token, but for its span. -/
structure Shapes (keyword : Token) (build : Span → Statement) (more : List Event) : Prop where
  span : ∀ span, (build span).span = span
  starts : ∀ span, Fits startOf ((build span).within.map (·.span.start)) more
  names : ∀ span, Names ((build span :: (build span).within).flatMap Statement.idents)
    ([Event.reads keyword] ++ more)
  accounts : ∀ span, Accounts (build span :: (build span).within) more

/-- What a statement that starts at a token is made of, but for its span. -/
structure Placed (token : Token) (build : Span → Statement) (more : List Event) : Prop where
  read : readBy more ≠ []
  span : ∀ span, (build span).span = span
  laid : ∀ span, span.start = token.span.start → Laid (build span :: (build span).within) more

theorem Shapes.placed {keyword : Token} {build : Span → Statement} (h : Shapes keyword build more) :
    Placed keyword build ([Event.reads keyword] ++ more) where
  read := nofun
  span := h.span
  laid span hspan := by
    refine ⟨?_, h.names span, (h.accounts span).behind rfl⟩
    have hstart : Fits startOf [startOf keyword] [.reads keyword] := Fits.read
    rw [List.map_cons, h.span, hspan]
    exact hstart.append (h.starts span)

/-- An action accounts for a run by its jumps and its label. -/
theorem Acted.accounts {a : Action} (h : Acted a more) (span : Span) :
    Accounts [.action a span] more where
  counters := List.forall_mem_singleton.mpr trivial
  jumps := by
    refine List.forall_mem_singleton.mpr ?_
    rw [jumpTargets_action]
    exact h.jumps
  labels hclean := by
    rw [← h.label hclean]
    cases hl : a.label? <;> simp [Statement.label?, hl]

/-- An action that names something starts at a token that it has read. -/
theorem At.placed_action (h : At o trace s) (k : At o (trace ++ more) u)
    (hword : s.current.kind.IsWord) {a : Action} (ha : Acted a more) (hne : a.idents ≠ []) :
    Placed s.current (.action a) more := by
  have hread : readBy more ≠ [] := by
    intro hnil
    obtain ⟨i, is, his⟩ := List.exists_cons_of_ne_nil hne
    have hcount := ha.names i.span
    rw [hnil, his] at hcount
    simp at hcount
  obtain ⟨rest, hrest⟩ := h.readBy_eq k hword hread
  refine ⟨hread, fun _ => rfl, fun span hspan => ⟨?_, ?_, ha.accounts span⟩⟩
  · intro p
    rw [hrest]
    show [span.start].count p ≤ (startOf s.current :: rest.map startOf).count p
    rw [hspan]
    exact List.Sublist.count_le _ (List.singleton_sublist.mpr List.mem_cons_self)
  · simpa [Statement.within, Action.idents, Statement.idents, Statement.names,
      Statement.expressions] using ha.names

/-! ## 2. Blocks -/

theorem looks_atBlockEnd (stop : BlockEnd) : Looks (atBlockEnd stop) := by
  cases stop with
  | file => exact Looks.pure _
  | arm => exact looks_sees _
  | counted => exact looks_sees _
  | loop => exact looks_sees _
  | caseArm =>
    refine looks_currentKind.bind fun kind => ?_
    split
    · exact Looks.pure _
    · exact looks_nextKind.bind fun _ => Looks.pure _
    · exact Looks.pure _

/-- A parser that is recovered from ends in `Q` whatever fails, as long as its stand-in does where an
    error is. -/
theorem leads_recover {α : Type} {level : Level} {p : Parser α} {standIn : α}
    {Q : α → List Event → Prop} (hlevel : ∀ recovery, level.Allows (.catches recovery))
    (hp : h.Tries level p Q) (hstandIn : ∀ more, ¬ Clean more → Q standIn more) :
    h.Leads level (recover standIn p) Q := by
  refine At.Leads.look (outset_eq s) (At.Leads.bind hp fun r more u k hr => ?_)
  cases r with
  | ok a => exact At.Leads.pure (by rwa [List.append_nil])
  | error fault =>
    refine (leads_reportFault fault).bind fun _ m1 u1 k1 hm1 => ?_
    refine leads_synchronize.bind fun _ m2 u2 k2 _ => ?_
    refine (leads_noteRecovery hlevel _ _).bind fun _ m3 u3 k3 _ => At.Leads.pure (hstandIn _ ?_)
    refine not_clean hr ?_
    rw [hm1]
    exact List.mem_append_right _ List.mem_cons_self

theorem leads_closeBlock {level : Level} (terminator : Keyword) (construct : String)
    (start : Span) : h.Leads level (closeBlock terminator construct start) fun _ _ => True := by
  refine At.Leads.look (sees_eq s _) ?_
  split
  · exact leads_advance'.bind fun _ _ _ _ _ => At.Leads.pure trivial
  · refine (leads_report _ _).bind fun _ m1 u1 k1 _ => ?_
    exact At.Leads.look (p := MonadState.get) rfl (At.Leads.pure trivial)

attribute [local simp] Block.all_append Block.all

/-- A parser of statements that are laid on the tokens it reads. -/
def Lays (statement : Parser Statement) : Prop :=
  Gives .statement statement fun st more => Laid (st :: st.within) more

section Statements

variable {statement : Parser Statement} (hs : Lays statement)

include hs

theorem leads_blockTurn (stop : BlockEnd) (statements : Array Statement) :
    h.Leads .statement (blockTurn statement stop statements) fun turn more =>
      ∀ done, Laid (Block.all statements.toList) done →
        turn.Keeps (fun ss => Laid (Block.all ss.toList)) (fun body => Laid (Block.all body))
          (done ++ more) := by
  refine (leads_skipWhile _).plain.bind fun _ m1 u1 k1 hm1 => ?_
  refine At.Leads.look (sees_eq u1 _) (At.Leads.look (looks_atBlockEnd stop u1) ?_)
  split
  · refine At.Leads.pure fun done hdone => ?_
    rw [List.append_nil]
    exact hdone.before hm1.2
  · refine At.Leads.bind (Q := fun (found : Option Statement) more =>
        Laid (Block.all found.toList) more)
      (leads_recover (fun _ => trivial) ?_ fun _ => Laid.dropped) fun found m2 u2 k2 hfound => ?_
    · refine (hs k1).bind fun st m3 u3 k3 hst => ?_
      have hone : Laid (Block.all [st]) m3 := by simpa using hst
      dsimp only
      split
      · exact At.Tries.pure (by simpa using hone)
      · refine tries_expectSeparator.plain.bind fun _ m4 u4 k4 hm4 => At.Tries.pure ?_
        rw [List.append_nil]
        exact hone.before hm4.2
    · refine At.Leads.pure fun done hdone => ?_
      have hall := hdone.append (hfound.behind hm1.2)
      cases found <;> simpa using hall

/-- **Blocks are laid on the tokens that are read for them**, with or without faults. -/
theorem leads_block (stop : BlockEnd) :
    h.Leads .statement (block statement stop) fun body more => Laid (Block.all body) more := by
  refine At.Leads.loop (I := fun (ss : Array Statement) done => Laid (Block.all ss.toList) done)
    (Laid.nil rfl) (fun ss done u k hss => ?_) fun ss done hss => hss
  exact (leads_blockTurn hs stop ss).mono fun turn more hturn => hturn done hss

theorem tries_lineTurn (stopsAtElse : Bool) (statements : Array Statement) :
    h.Tries .statement (lineTurn statement stopsAtElse statements) fun turn more =>
      ∀ done, Laid (Block.all statements.toList) done →
        turn.Keeps (fun ss => Laid (Block.all ss.toList)) (fun body => Laid (Block.all body))
          (done ++ more) := by
  refine At.Tries.look (currentKind_eq s) ?_
  dsimp only
  split
  · exact At.Tries.pure fun done hdone => by simpa using hdone
  · refine (hs h).bind fun st m1 u1 k1 hst => ?_
    refine At.Tries.after (leads_consume _).plain fun separated m2 u2 k2 hm2 => ?_
    have hmore (done : List Event) (hdone : Laid (Block.all statements.toList) done) :
        Laid (Block.all (statements.push st).toList) (done ++ (m1 ++ (m2 ++ []))) := by
      simpa using hdone.append (hst.before hm2.2)
    split
    · exact At.Tries.pure hmore
    · refine At.Tries.look (currentKind_eq u2) ?_
      split
      · exact At.Tries.pure hmore
      · split
        · exact At.Tries.pure hmore
        · exact At.Tries.look (current_eq u2) (tries_failHere rfl)

theorem tries_lineBlock (stopsAtElse : Bool) :
    h.Tries .statement (lineBlock statement stopsAtElse) fun body more =>
      Laid (Block.all body) more := by
  refine At.Tries.tryLoop (I := fun (ss : Array Statement) done => Laid (Block.all ss.toList) done)
    (Laid.nil rfl) fun ss done u k hss => ?_
  exact (tries_lineTurn hs stopsAtElse ss).mono fun turn more hturn => hturn done hss

/-! ## 3. Arms -/

omit hs in
theorem looks_atLineEnd : Looks atLineEnd := by
  refine looks_currentKind.bind fun kind => ?_
  split
  · exact Looks.pure _
  · exact looks_nextKind.bind fun _ => Looks.pure _
  · exact Looks.pure _

theorem tries_arm (kind : RegionKind) (start : Span) :
    h.Tries .statement (arm statement kind start) fun body more => Laid (Block.all body) more := by
  refine At.Tries.after leads_begin fun _ m0 u0 k0 hm0 => At.Tries.look (looks_atLineEnd u0) ?_
  split
  · refine (At.Tries.step leads_advance'.plain).dropped.bind fun _ m1 u1 k1 hm1 => ?_
    refine At.Tries.after (leads_block hs .arm) fun body m2 u2 k2 hbody => ?_
    refine At.Tries.after (leads_closeBlock _ _ _).plain fun stop m3 u3 k3 hm3 => ?_
    refine At.Tries.after (leads_recordRegion _ _).plain fun _ m4 u4 k4 hm4 => At.Tries.pure ?_
    exact ((hbody.before (by simp [hm3.2, hm4.2])).behind hm1.2).behind hm0
  · exact (tries_lineBlock hs _).mono fun body more hbody => hbody.behind hm0

theorem tries_armAfter? (word : Keyword) (kind : RegionKind) :
    h.Tries .statement (armAfter? statement word kind) fun body more =>
      Laid (allInArm body) more := by
  refine At.Tries.look (sees_eq s _) ?_
  split
  · refine At.Tries.after leads_advance'.plain fun start m1 u1 k1 hm1 => ?_
    refine (tries_arm hs kind start.span).bind fun body m2 u2 k2 hbody => At.Tries.pure ?_
    rw [List.append_nil]
    exact hbody.behind hm1.2
  · exact At.Tries.pure (Laid.nil rfl)

theorem tries_arms (optional : Bool) :
    h.Tries .statement (arms statement optional) fun found more =>
      Laid (allInArm found.1 ++ allInArm found.2) more := by
  refine At.Tries.look (current_eq s) ?_
  refine (tries_armAfter? hs .THEN .thenArm).bind fun thenArm m1 u1 k1 hthen => ?_
  refine (tries_armAfter? hs .ELSE .elseArm).bind fun elseArm m2 u2 k2 helse => ?_
  have hall := hthen.append helse
  dsimp only
  split
  · rename_i hnone
    obtain ⟨rfl, rfl⟩ : thenArm = none ∧ elseArm = none := by
      simpa using hnone
    split
    · exact At.Tries.pure (by simpa using hall)
    · exact At.Tries.throw rfl
  · split
    · exact At.Tries.pure (by simpa using hall)
    · refine At.Tries.look (spanFrom_eq u2 _) ?_
      refine At.Tries.after (leads_report _ _).plain fun _ m3 u3 k3 hm3 => At.Tries.pure ?_
      simpa using hall.before hm3.2

/-! ## 4. Loops -/

omit hs in
theorem tries_bounds : h.Tries .plain bounds fun found more =>
    Names (found.1.idents ++ (found.2.1.idents ++ found.2.2.toList.flatMap Expr.idents)) more := by
  refine (tries_expect _).dropped.bind fun _ m1 u1 k1 _ => ?_
  refine (reads_expression .plain k1).bind fun start m2 u2 k2 hstart => ?_
  refine (tries_expect _).dropped.bind fun _ m3 u3 k3 _ => ?_
  refine (reads_expression .plain k3).bind fun limit m4 u4 k4 hlimit => ?_
  refine (tries_expressionAfter? .STEP).bind fun step m5 u5 k5 hstep => At.Tries.pure ?_
  have hall := (hstart.append ((hlimit.append hstep).behind m3)).behind m1
  simpa using hall

omit hs in
/-- The header of a loop names what it has read, or nothing but its keyword. -/
theorem leads_counter (keyword : Token) :
    h.Leads .silent (counter keyword.span) fun c more => c.name.role = .assignment ∧
      Names (c.name :: c.expressions.flatMap Expr.idents) ([Event.reads keyword] ++ more) := by
  refine At.Leads.bind tries_expectIdent fun r m1 u1 k1 hr => ?_
  cases r with
  | error fault =>
    refine leads_recover (fun _ => rfl) (At.Tries.throw hr) fun more _ => ⟨rfl, ?_⟩
    have hnone := (Names.read keyword "" .assignment).before (m1 ++ more)
    simpa [Counter.expressions, Expr.missing, Expr.idents] using hnone
  | ok t =>
    obtain ⟨rfl, hkind⟩ := hr
    have hname := (Names.read t t.text .assignment).behind [.reads keyword]
    refine (leads_noteVariable (k1.newest hkind)).plain.bind fun _ m2 u2 k2 _ => ?_
    refine leads_recover (fun _ => rfl) ?_ fun more _ => ⟨rfl, ?_⟩
    · refine tries_bounds.plain.bind fun found m3 u3 k3 hfound => ?_
      obtain ⟨first, limit, step⟩ := found
      refine At.Tries.pure ⟨rfl, ?_⟩
      have hall := hname.append (hfound.1.behind m2)
      simpa [Counter.expressions] using hall
    · simpa [Counter.expressions, Expr.missing, Expr.idents] using hname.before (m2 ++ more)

theorem leads_loopBody (stop : BlockEnd) :
    h.Leads .statement (loopBody statement stop) fun body more => Laid (Block.all body) more := by
  refine leads_begin.bind fun _ m0 u0 k0 hm0 => ?_
  refine At.Leads.bind (Q := fun _ more => declaredBy more = [])
    (At.Leads.anyEvent (e := .enters) (a := ()) rfl trivial rfl) fun _ m1 u1 k1 hm1 => ?_
  refine (leads_block hs stop).bind fun body m2 u2 k2 hbody => ?_
  refine At.Leads.bind (Q := fun _ more => declaredBy more = [])
    (At.Leads.anyEvent (e := .leaves) (a := ()) rfl trivial rfl) fun _ m3 u3 k3 hm3 => ?_
  refine At.Leads.pure ?_
  rw [List.append_nil]
  exact ((hbody.before hm3).behind hm1).behind hm0

omit hs in
theorem leads_closingName? (name : Ident) :
    h.Leads .plain (closingName? name) fun closing more => Names closing.toList more := by
  refine At.Leads.look (sees_eq s _) ?_
  split
  · rename_i hk
    refine (leads_advance_of_isName (Or.inl (eq_of_beq hk))).bind ?_
    rintro t _ u1 k1 ⟨rfl, hkind⟩
    have hname := Names.read t t.text .reference
    refine (leads_noteVariable (k1.newest hkind)).bind fun _ m2 u2 k2 _ => ?_
    dsimp only
    split
    · refine (leads_report _ _).bind fun _ m3 u3 k3 _ => At.Leads.pure ?_
      simpa using hname.before (m2 ++ m3)
    · exact At.Leads.pure (by simpa using hname.before m2)
  · exact At.Leads.pure Names.nil

omit hs in
/-- What a loop consists of behind its header, body and closing name. -/
theorem shapes_counted {keyword : Token} {c : Counter} {body : Block} {closing : Option Ident}
    {m1 m2 m3 : List Event}
    (hc : (c.name.role = .assignment ∧
      Names (c.name :: c.expressions.flatMap Expr.idents) ([Event.reads keyword] ++ m1)) ∧
        declaredBy m1 = [])
    (hbody : Laid (Block.all body) m2) (hclosing : Names closing.toList m3)
    (hplain : declaredBy m3 = []) :
    Shapes keyword (.counted c body closing) (m1 ++ (m2 ++ m3)) where
  span _ := rfl
  starts _ := (hbody.starts.before m3).behind m1
  names span := by
    have hperm : (c.expressions.flatMap Expr.idents ++
        ((Block.all body).flatMap Statement.idents ++ closing.toList)).Perm
        (closing.toList ++ (c.expressions.flatMap Expr.idents ++
          (Block.all body).flatMap Statement.idents)) := by
      rw [← List.append_assoc]
      exact List.perm_append_comm
    have hall := (hc.1.2.append (hbody.names.append hclosing)).perm (hperm.cons c.name)
    simpa [Statement.within, Statement.idents, Statement.names, Statement.expressions] using hall
  accounts _ := ((hbody.accounts.before hplain).behind hc.2).cons hc.1.1 rfl rfl

theorem leads_countedLoop (keyword : Token) :
    h.Leads .statement (countedLoop statement keyword.span) (Shapes keyword) := by
  refine (leads_counter keyword).silent.bind fun c m1 u1 k1 hc => ?_
  refine (leads_loopBody hs .counted).bind fun body m2 u2 k2 hbody => ?_
  refine At.Leads.look (sees_eq u2 _) ?_
  refine (leads_closeBlock _ _ _).plain.dropped.bind fun _ m3 u3 k3 hm3 => ?_
  dsimp only
  split
  · refine (leads_closingName? _).plain.bind fun closing m4 u4 k4 hclosing => ?_
    refine At.Leads.look (spanFrom_eq u4 _) ?_
    refine (leads_recordRegion _ _).plain.bind fun _ m5 u5 k5 hm5 => At.Leads.pure ?_
    refine shapes_counted hc hbody ((hclosing.1.before _).behind m3) ?_
    simp [hm3.2, hclosing.2, hm5.2]
  · refine At.Leads.given (At.Leads.look (spanFrom_eq u3 _) ?_)
    refine (leads_recordRegion _ _).plain.bind fun _ m4 u4 k4 hm4 => At.Leads.pure ?_
    exact shapes_counted hc hbody Names.nil (by simp [hm3.2, hm4.2])

theorem leads_plainLoop (keyword : Token) :
    h.Leads .statement (plainLoop statement keyword.span) (Shapes keyword) := by
  refine (leads_loopBody hs .loop).bind fun body m1 u1 k1 hbody => ?_
  refine (leads_closeBlock _ _ _).plain.dropped.bind fun _ m2 u2 k2 hm2 => ?_
  refine At.Leads.look (spanFrom_eq u2 _) ?_
  refine (leads_recordRegion _ _).plain.bind fun _ m3 u3 k3 hm3 => At.Leads.pure ?_
  have hall : Laid (Block.all body) (m1 ++ (m2 ++ (m3 ++ []))) :=
    hbody.before (by simp [hm2.2, hm3.2])
  exact ⟨fun _ => rfl, fun _ => hall.starts, fun _ => hall.names.behind _,
    fun _ => hall.accounts.cons trivial rfl rfl⟩

/-! ## 5. Choices -/

/-- The identifiers of the conditions of some arms, each before those of its arm. -/
def identsOfArms (found : List CaseArm) : List Ident :=
  found.flatMap fun arm => arm.cond.idents ++ (Block.all arm.body).flatMap Statement.idents

/-- Arms whose statements are laid on the tokens that have been read. -/
structure ArmsLaid (found : List CaseArm) (more : List Event) : Prop where
  starts : Fits startOf ((allInArms found).map (·.span.start)) more
  names : Names (identsOfArms found) more
  accounts : Accounts (allInArms found) more

omit hs in
theorem ArmsLaid.append {a b : List CaseArm} {m1 m2 : List Event} (h : ArmsLaid a m1)
    (k : ArmsLaid b m2) : ArmsLaid (a ++ b) (m1 ++ m2) where
  starts := by
    rw [allInArms_eq_flatMap, List.flatMap_append, List.map_append, ← allInArms_eq_flatMap,
      ← allInArms_eq_flatMap]
    exact h.starts.append k.starts
  names := by
    unfold identsOfArms
    rw [List.flatMap_append]
    exact h.names.append k.names
  accounts := by
    rw [allInArms_eq_flatMap, List.flatMap_append, ← allInArms_eq_flatMap, ← allInArms_eq_flatMap]
    exact h.accounts.append k.accounts

omit hs in
theorem ArmsLaid.before {found : List CaseArm} {m1 m2 : List Event} (h : ArmsLaid found m1)
    (hm2 : declaredBy m2 = []) : ArmsLaid found (m1 ++ m2) :=
  ⟨h.starts.before m2, h.names.before m2, h.accounts.before hm2⟩

theorem leads_caseArm :
    h.Leads .statement (caseArm statement) fun arm more => ArmsLaid [arm] more := by
  refine leads_advance'.plain.bind fun start m1 u1 k1 hm1 => ?_
  have hcondition : k1.Leads .silent (recover (.missing start.span) do
      let cond ← expression
      expectSeparator
      return cond) fun cond m => Names cond.idents m := by
    refine leads_recover (fun _ => rfl) ?_ fun _ _ => Names.nil
    refine (reads_expression .silent k1).bind fun cond m u k hcond => ?_
    refine tries_expectSeparator.bind fun _ m' u' k' _ => At.Tries.pure ?_
    simpa using hcond.before m'
  refine hcondition.silent.bind fun cond m2 u2 k2 hcond => ?_
  refine (leads_block hs .caseArm).bind fun body m3 u3 k3 hbody => ?_
  refine At.Leads.look (spanFrom_eq u3 _) ?_
  refine (leads_recordRegion _ _).plain.bind fun _ m4 u4 k4 hm4 => At.Leads.pure ⟨?_, ?_, ?_⟩
  · have hall := ((hbody.starts.before m4).behind m2).behind m1
    simpa [allInArms] using hall
  · have hall := (hcond.1.append (hbody.names.before m4)).behind m1
    simpa [identsOfArms, CaseArm.cond, CaseArm.body] using hall
  · have hall := ((hbody.accounts.before hm4.2).behind hcond.2).behind hm1.2
    simpa [allInArms] using hall

theorem leads_choiceTurn (start : Span) (found : Array CaseArm) :
    h.Leads .statement (choiceTurn statement start found) fun turn more =>
      ∀ done, ArmsLaid found.toList done →
        turn.Keeps (fun arms => ArmsLaid arms.toList) ArmsLaid (done ++ more) := by
  refine (leads_skipWhile _).plain.bind fun _ m1 u1 k1 hm1 => ?_
  refine At.Leads.look (sees_eq u1 _) ?_
  split
  · refine (leads_caseArm hs).bind fun arm m2 u2 k2 harm => At.Leads.pure fun done hdone => ?_
    simpa using (hdone.before hm1.2).append harm
  · refine At.Leads.look (sees_eq u1 _) (At.Leads.look (nextKind_eq u1) ?_)
    split
    · refine leads_advance'.plain.dropped.bind fun _ m2 u2 k2 hm2 => ?_
      refine (leads_advance' (h := k2)).plain.dropped.bind fun _ m3 u3 k3 hm3 => ?_
      exact At.Leads.pure fun done hdone => hdone.before (by simp [hm1.2, hm2.2, hm3.2])
    · refine At.Leads.look (sees_eq u1 _) ?_
      split
      · refine (leads_report _ _).plain.bind fun _ m2 u2 k2 hm2 => ?_
        exact At.Leads.pure fun done hdone => hdone.before (by simp [hm1.2, hm2.2])
      · refine At.Leads.look (current_eq u1) ?_
        refine (leads_report _ _).plain.bind fun _ m2 u2 k2 hm2 => ?_
        refine (leads_skipWhile _).plain.bind fun _ m3 u3 k3 hm3 => ?_
        exact At.Leads.pure fun done hdone => hdone.before (by simp [hm1.2, hm2.2, hm3.2])

theorem leads_choiceArms (start : Span) :
    h.Leads .statement (choiceArms statement start) ArmsLaid := by
  refine At.Leads.loop (I := fun (arms : Array CaseArm) done => ArmsLaid arms.toList done)
    ⟨Fits.nil, Names.nil, .nil rfl⟩ (fun arms done u k harms => ?_) fun arms done harms => harms
  exact (leads_choiceTurn hs start arms).mono fun turn more hturn => hturn done harms

theorem tries_choice (keyword : Token) :
    h.Tries .statement (choice statement keyword.span) (Shapes keyword) := by
  refine (tries_expect _).plain.dropped.bind fun _ m1 u1 k1 hm1 => ?_
  refine tries_expectSeparator.plain.bind fun _ m2 u2 k2 hm2 => ?_
  refine At.Tries.after leads_begin fun _ m0 u0 k0 hm0 => ?_
  refine At.Tries.after (leads_choiceArms hs _) fun found m3 u3 k3 hfound => ?_
  refine At.Tries.look (spanFrom_eq u3 _) ?_
  refine At.Tries.after (leads_recordRegion _ _).plain fun _ m4 u4 k4 hm4 => At.Tries.pure ?_
  refine ⟨fun _ => rfl, fun span => ?_, fun span => ?_, fun span => ?_⟩
  · have hall := (((hfound.starts.before m4).behind m0).behind m2).behind m1
    simpa [Statement.within] using hall
  · have hperm := (List.flatMap_append_perm found (fun arm => arm.cond.idents) fun arm =>
      (Block.all arm.body).flatMap Statement.idents).symm
    have hfront := ((hfound.names.perm hperm).before m4).behind m0
    have hall := ((hfront.behind m2).behind m1).behind [.reads keyword]
    simpa [Statement.within, allInArms_eq_flatMap, List.flatMap_assoc, Statement.idents,
      Statement.names, Statement.expressions, List.flatMap_map] using hall
  · rw [List.append_nil]
    have hfront := (hfound.accounts.before hm4.2).behind hm0
    exact ((hfront.behind hm2.2).behind hm1.2).cons trivial rfl rfl

/-! ## 6. Statements -/

theorem tries_decision {test : Parser Decision} (htest : Decides test) (keyword : Token) :
    h.Tries .statement (decision statement test) (Shapes keyword) := by
  refine (htest h).plain.bind fun d m1 u1 k1 hd => ?_
  refine (tries_arms hs _).bind fun found m2 u2 k2 hfound => ?_
  obtain ⟨thenArm, elseArm⟩ := found
  refine At.Tries.pure ⟨fun _ => rfl, fun span => ?_, fun span => ?_, fun span => ?_⟩
  · simpa [Statement.within] using hfound.starts.behind m1
  · have hall := (hd.1.append hfound.names).behind [.reads keyword]
    simpa [Statement.within, Statement.idents, Statement.names, Statement.expressions,
      Decision.idents] using hall
  · rw [List.append_nil]
    exact (hfound.accounts.behind hd.2).cons trivial rfl rfl

omit hs in
theorem tries_action {p : Parser Action} (hp : Acts p) (keyword : Token) :
    h.Tries .statement (Statement.action <$> p) (Shapes keyword) := by
  refine At.Tries.map ((hp h).plain.mono fun a more ha => ⟨fun _ => rfl, fun _ => Fits.nil,
    fun span => ?_, (ha.1.acted ha.2).accounts⟩)
  simpa [Statement.within, Statement.idents, Statement.names, Statement.expressions,
    Action.idents] using ha.1.names.behind [.reads keyword]

theorem tries_statementAfter? {keyword : Token} {word : Keyword}
    {p : Parser (Span → Statement)} (hp : statementAfter? statement keyword word = some p) :
    h.Tries .statement p (Shapes keyword) := by
  unfold statementAfter? at hp
  split at hp
  · cases hp
    exact At.Tries.step (leads_countedLoop hs keyword)
  · cases hp
    exact At.Tries.step (leads_plainLoop hs keyword)
  · cases hp
    exact tries_choice hs keyword
  · split at hp
    · rename_i test htest
      cases hp
      exact tries_decision hs (decides_decisionAfter? htest) keyword
    · obtain ⟨a, ha, rfl⟩ := Option.map_eq_some_iff.mp hp
      exact tries_action (acts_actionAfter? ha) keyword

omit hs in
/-- A statement that opens with no keyword. -/
theorem tries_unmarked (hword : s.current.kind.IsWord) {p : Parser Action}
    (hp : h.Tries .statement p fun a more => Acted a more ∧ a.idents ≠ []) :
    h.Tries .statement (Statement.action <$> p) (Placed s.current) := by
  rw [map_eq_pure_bind]
  refine hp.bind fun a m1 u1 k1 ha => At.Tries.pure ?_
  rw [List.append_nil]
  exact h.placed_action k1 hword ha.1 ha.2

omit hs in
/-- An assignment or a call. -/
theorem tries_assignmentStatement (hword : s.current.kind.IsWord) :
    h.Tries .statement (Statement.action <$> assignmentOrCall) (Placed s.current) :=
  tries_unmarked hword (tries_assignmentOrCall.plain.mono fun _ _ ha => ⟨ha.1.1.acted ha.2, ha.1.2⟩)

/-- A statement whose keyword comes next. -/
theorem tries_keywordStatement {word : Keyword} (hk : s.current.kind = .keyword word) :
    h.Tries .statement (keywordStatement statement s.current word) (Placed s.current) := by
  have hword : s.current.kind.IsWord := by
    rw [hk]
    exact Kind.isWord_keyword word
  refine At.Tries.look (nextKind_eq s) ?_
  split
  · exact tries_assignmentStatement hword
  · split
    · rename_i p hp
      refine (tries_skip hword).bind ?_
      rintro _ _ u1 k1 rfl
      exact (tries_statementAfter? hs hp).mono fun build m2 hbuild => hbuild.placed
    · exact tries_failHere rfl

/-- **One layer of statements over statements that are laid is laid.** -/
theorem lays_statementLayer : Lays (statementLayer statement) := by
  intro o trace s h
  have hend {p : Parser (Span → Statement)} (hword : s.current.kind.IsWord)
      (hp : h.Tries .statement p (Placed s.current)) :
      h.Tries .statement (do
        let build ← p
        return build (← spanFrom s.current.span)) fun st more => Laid (st :: st.within) more := by
    refine hp.bind fun build m1 u1 k1 hbuild => ?_
    refine At.Tries.look (spanFrom_eq u1 _) (At.Tries.pure ?_)
    rw [List.append_nil]
    exact hbuild.laid _ (h.start_join k1 hword hbuild.read)
  refine At.Tries.look (current_eq s) ?_
  dsimp only
  split
  · rename_i hk
    have hword : s.current.kind.IsWord := by
      rw [hk]
      decide
    refine (tries_skip hword).bind ?_
    rintro _ _ u1 k1 rfl
    refine At.Tries.given (At.Tries.look (spanFrom_eq u1 _) (At.Tries.pure ?_))
    have hshapes : Shapes s.current (.action .empty) [] :=
      ⟨fun _ => rfl, fun _ => Fits.nil, fun _ => Names.nil,
        fun _ => (Accounts.nil rfl).cons trivial rfl rfl⟩
    exact hshapes.placed.laid _ (h.start_join k1 hword (List.cons_ne_nil _ _))
  · rename_i hk
    have hword : s.current.kind.IsWord := by
      rw [hk]
      decide
    refine At.Tries.look (nextKind_eq s) ?_
    split
    · exact hend hword (tries_unmarked hword (tries_labelAction hk))
    · exact hend hword (tries_assignmentStatement hword)
  · rename_i hk
    have hword : s.current.kind.IsWord := by
      rw [hk]
      decide
    exact hend hword (tries_assignmentStatement hword)
  · rename_i hk
    have hword : s.current.kind.IsWord := by
      rw [hk]
      decide
    exact hend hword (tries_unmarked hword
      (tries_insertAction.plain.mono fun _ _ ha => ⟨ha.1.1.acted ha.2, ha.1.2⟩))
  · rename_i word hk
    have hword : s.current.kind.IsWord := by
      rw [hk]
      exact Kind.isWord_keyword word
    exact hend hword (tries_keywordStatement hs hk)
  · exact (tries_failHere rfl (Q := fun _ _ => False)).fails

end Statements

/-- **A statement goes on with the run** and is laid on the tokens that it reads. -/
theorem lays_statement : Lays statement := by
  intro o trace s h
  refine At.Tries.get ?_
  exact of_layers Lays statementLayer (fun _ _ _ _ => At.Tries.throw rfl)
    (fun p hp => lays_statementLayer hp) _ h

end BasicCheck.Parse
