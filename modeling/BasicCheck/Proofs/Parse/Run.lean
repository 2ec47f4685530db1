import BasicCheck.Parse.Expression
import BasicCheck.Proofs.Symbol.Indexed

/-!
# Runs of the grammar

Whatever the grammar does to its state is made of a few events: a token is read, something is
recorded, a name is noted in the table of symbols, an attempt is given up. A run is a sequence of
events each of which is legal where it happens (`Run`). What may be noted is told by the run itself:
only names that it has read, and none of them twice.

A run keeps a state sound (**`Run.sound`**), for tokens are read in their order: what is unread stands
behind everything that the table refers to. An attempt that is given up has left everything as it was;
this, too, is part of soundness, and runs keep it. A state is what the events of a run make of the
state before it (`Run.eq_foldl`), so that a run is told by its events.
-/

namespace BasicCheck.Parse

/-! ## 1. Events -/

/-- Nothing is left of an attempt, which did not start between the halves of a token. -/
def Attempt.Traceless (attempt : Attempt) : Prop :=
  attempt.after = attempt.before ∧ attempt.before.split = none

/-- What a run does at once. -/
inductive Event where
  /-- A token is read. -/
  | reads (token : Token)
  /-- The `>` of a token `>=` is read. -/
  | splits (whole : Token)
  /-- The `=` of a token `>=` is read. -/
  | readsHalf (whole : Token)
  /-- A fault is recorded. -/
  | reports (diagnostic : Diagnostic)
  /-- A token becomes a reference to a symbol that is there. -/
  | refers (kind : SymbolKind) (id : Nat) (token : Token)
  /-- A token becomes a symbol and the first reference to it. -/
  | creates (meaning : Meaning) (token : Token)
  /-- A token declares a label that was only referred to. -/
  | promotes (id : Nat) (token : Token)
  /-- A region is recorded. -/
  | closes (region : Region)
  /-- The body of a loop begins. -/
  | enters
  /-- The body of a loop ends. -/
  | leaves
  /-- An attempt is taken back. -/
  | givesUp (attempt : Attempt)
  /-- An arm, the body of a loop or the arms of a choice begin. -/
  | begins
  /-- A fault is noted that was caught. -/
  | catches (recovery : Recovery)

namespace Event

/-- The state after an event. -/
def act (s : State) : Event → State
  | reads t => { s with rest := s.rest.tail, last := some t }
  | splits t => { s with rest := s.rest.tail, last := some t, split := some t }
  | readsHalf _ => { s with split := none }
  | reports d => { s with diagnostics := s.diagnostics.push d }
  | refers _ id t => { s with symbols := s.symbols.addReference id t }
  | creates meaning t => { s with symbols := s.symbols.create t meaning }
  | promotes id t => { s with symbols := (s.symbols.declareAt id t).addReference id t }
  | closes region => { s with regions := s.regions.push region }
  | enters => { s with loopDepth := s.loopDepth + 1 }
  | leaves => { s with loopDepth := s.loopDepth - 1 }
  | givesUp attempt =>
    { s with
      takenBack := fun a => s.takenBack a ∨ a = attempt
      retreats := s.retreats + 1 }
  | begins => { s with begun := s.begun + 1 }
  | catches recovery => { s with recoveries := s.recoveries.push recovery }

/-- Whether an event may happen in a state, some tokens having been read. -/
def Legal (read : List Token) (s : State) : Event → Prop
  | reads t => s.split = none ∧ s.rest.tokens.head? = some t
  | splits t => s.split = none ∧ s.rest.tokens.head? = some t
  | readsHalf t => s.split = some t
  | refers kind id t =>
    s.symbols.keys[(⟨kind, t.folded⟩ : SymbolKey)]? = some id ∧ t.IsNamed read ∧ s.symbols.Latest t
  | creates meaning t =>
    s.symbols.keys[(⟨meaning.kind, t.folded⟩ : SymbolKey)]? = none ∧ t.IsNamed read ∧
      s.symbols.Clear t
  | promotes id t =>
    (∃ symbol : Symbol, s.symbols.symbols[id]? = some symbol ∧ symbol.key = ⟨.label, t.folded⟩ ∧
      symbol.isDeclared = false) ∧ t.IsNamed read ∧ s.symbols.Latest t
  | givesUp attempt => attempt.Traceless
  | reports _ | closes _ | enters | leaves | begins | catches _ => True

/-- The token that an event takes from the unread ones. -/
def token? : Event → Option Token
  | reads t | splits t => some t
  | _ => none

/-- The label that an event declares. -/
def declared? : Event → Option Ident
  | creates (.label true) t | promotes _ t => some ⟨t.text, .label, t.span⟩
  | _ => none

/-- The key of the symbol that an event refers to. -/
def key? : Event → Option SymbolKey
  | refers kind _ t => some ⟨kind, t.folded⟩
  | creates meaning t => some ⟨meaning.kind, t.folded⟩
  | promotes _ t => some ⟨.label, t.folded⟩
  | _ => none

/-- Events that leave the table of symbols as it is. -/
def IsQuiet : Event → Prop
  | refers _ _ _ | creates _ _ | promotes _ _ => False
  | _ => True

theorem symbols_act (s : State) {e : Event} (h : e.IsQuiet) : (e.act s).symbols = s.symbols := by
  cases e with
  | refers _ _ _ => exact h.elim
  | creates _ _ => exact h.elim
  | promotes _ _ => exact h.elim
  | _ => rfl

end Event

/-- The tokens that are read by some events, in their order. -/
def readBy (trace : List Event) : List Token := trace.filterMap Event.token?

@[simp] theorem readBy_nil : readBy [] = [] := rfl

@[simp] theorem readBy_append (a b : List Event) : readBy (a ++ b) = readBy a ++ readBy b :=
  List.filterMap_append

@[simp] theorem readBy_reads (t : Token) : readBy [.reads t] = [t] := rfl

/-- The labels that are declared by some events, in their order. -/
def declaredBy (trace : List Event) : List Ident := trace.filterMap Event.declared?

@[simp] theorem declaredBy_nil : declaredBy [] = [] := rfl

@[simp] theorem declaredBy_append (a b : List Event) :
    declaredBy (a ++ b) = declaredBy a ++ declaredBy b :=
  List.filterMap_append

@[simp] theorem declaredBy_reads (t : Token) (more : List Event) :
    declaredBy (.reads t :: more) = declaredBy more := rfl

/-- No error is among some events. -/
def Clean (trace : List Event) : Prop :=
  ∀ d : Diagnostic, .reports d ∈ trace → d.isError = false

theorem Clean.left {a b : List Event} (h : Clean (a ++ b)) : Clean a :=
  fun d hd => h d (List.mem_append_left _ hd)

theorem Clean.right {a b : List Event} (h : Clean (a ++ b)) : Clean b :=
  fun d hd => h d (List.mem_append_right _ hd)

/-- An error is not clean. -/
theorem not_clean {f : Fault} (hf : f.cause.severity = .error) {trace : List Event}
    (h : .reports (.ofFault f) ∈ trace) : ¬ Clean trace := by
  intro hclean
  have hnone := hclean _ h
  rw [Diagnostic.isError, Diagnostic.ofFault, hf] at hnone
  cases hnone

/-! ## 2. Runs -/

/-- A run from a state over some events to another state. -/
inductive Run (o : State) : List Event → State → Prop
  | start : Run o [] o
  | next {trace : List Event} {s : State} {e : Event} (before : Run o trace s)
      (legal : e.Legal (readBy trace) s) : Run o (trace ++ [e]) (e.act s)

namespace Run

variable {o s u : State} {trace more : List Event} {e : Event}

/-- What is legal stays legal when more has been read. -/
theorem legal_of_subset {read read' : List Token} (h : e.Legal read s) (hsub : read ⊆ read') :
    e.Legal read' s := by
  cases e with
  | refers kind id t => exact ⟨h.1, h.2.1.of_subset hsub, h.2.2⟩
  | creates meaning t => exact ⟨h.1, h.2.1.of_subset hsub, h.2.2⟩
  | promotes id t => exact ⟨h.1, h.2.1.of_subset hsub, h.2.2⟩
  | _ => exact h

/-- **A run is told by its events.** -/
theorem eq_foldl (h : Run o trace s) : s = trace.foldl Event.act o := by
  induction h with
  | start => rfl
  | next _ _ ih => rw [List.foldl_append, ← ih, List.foldl_cons, List.foldl_nil]

/-- The last step of a run. -/
theorem exists_before (h : Run o (trace ++ [e]) s) :
    ∃ b, Run o trace b ∧ e.Legal (readBy trace) b ∧ s = e.act b := by
  generalize htrace : trace ++ [e] = whole at h
  cases h with
  | start => simp at htrace
  | @next front b last before legal =>
    obtain ⟨rfl, hlast⟩ := List.append_inj' htrace rfl
    cases hlast
    exact ⟨b, before, legal, rfl⟩

theorem append (h : Run o trace s) (k : Run s more u) : Run o (trace ++ more) u := by
  induction k with
  | start => rwa [List.append_nil]
  | next _ legal ih =>
    rw [← List.append_assoc]
    refine ih.next (legal_of_subset legal ?_)
    rw [readBy_append]
    exact List.subset_append_right _ _

/-- A run takes its tokens from the front of the unread ones. -/
theorem tokens_eq (h : Run o trace s) : o.rest.tokens = readBy trace ++ s.rest.tokens := by
  induction h with
  | start => rfl
  | @next trace s e _ legal ih =>
    rw [ih, readBy_append, List.append_assoc]
    refine congrArg (readBy trace ++ ·) ?_
    cases e with
    | reads t | splits t =>
      obtain ⟨rest, hrest⟩ := List.head?_eq_some_iff.mp legal.2
      show s.rest.tokens = [t] ++ s.rest.tokens.tail
      rw [hrest]
      rfl
    | _ => rfl

theorem eof_eq (h : Run o trace s) : s.eof = o.eof := by
  induction h with
  | start => rfl
  | @next _ _ e _ _ ih => cases e <;> exact ih

/-- Events that leave the table of symbols as it is do so together. -/
theorem symbols_eq (h : Run o trace s) (k : Run o (trace ++ more) u) (hquiet : ∀ e ∈ more, e.IsQuiet) :
    u.symbols = s.symbols := by
  rw [k.eq_foldl, List.foldl_append, ← h.eq_foldl]
  clear h k
  induction more generalizing s with
  | nil => rfl
  | cons e more ih =>
    obtain ⟨he, hmore⟩ := List.forall_mem_cons.mp hquiet
    rw [List.foldl_cons, ih hmore, Event.symbols_act s he]

/-- Whatever is referred to behind a run was so before it, or stands where it has read a name. -/
theorem named (h : Run o trace s) {r : Reference} (hr : r ∈ s.symbols.references) :
    r ∈ o.symbols.references ∨ r.token.IsNamed (readBy trace) := by
  induction h with
  | start => exact Or.inl hr
  | @next trace s e h legal ih =>
    have hold (hr : r ∈ s.symbols.references) :
        r ∈ o.symbols.references ∨ r.token.IsNamed (readBy (trace ++ [e])) := by
      refine (ih hr).imp_right fun hnamed => hnamed.of_subset ?_
      rw [readBy_append]
      exact List.subset_append_left _ _
    have hpush {id : Nat} {t : Token} (hnamed : t.IsNamed (readBy trace))
        (hr : r ∈ s.symbols.references.push ⟨id, t⟩) :
        r ∈ o.symbols.references ∨ r.token.IsNamed (readBy (trace ++ [e])) := by
      rcases Array.mem_push.mp hr with hr | rfl
      · exact hold hr
      · refine Or.inr (hnamed.of_subset ?_)
        rw [readBy_append]
        exact List.subset_append_left _ _
    cases e with
    | refers kind id t => exact hpush legal.2.1 hr
    | creates meaning t => exact hpush legal.2.1 hr
    | promotes id t => exact hpush legal.2.1 hr
    | _ => exact hold hr

/-- The token that was read last is the last one of the run, if it has read any. -/
theorem last_eq (h : Run o trace s) : s.last = (readBy trace).getLast?.or o.last := by
  induction h with
  | start => rfl
  | @next trace s e _ _ ih =>
    rw [readBy_append]
    cases e with
    | reads t | splits t => simp [Event.act, readBy, Event.token?]
    | _ => simpa [Event.act, readBy, Event.token?] using ih

end Run

/-! ## 3. Sound states -/

/-- What holds of a state from the start of a procedure on. -/
structure State.Sound (s : State) : Prop where
  eof : s.eof.kind = .endOfFile
  /-- Half of a token is left only if the other half was read last. -/
  split : ∀ {whole : Token}, s.split = some whole → s.last = some whole
  order : InOrder s.rest.tokens
  table : s.symbols.Sound
  /-- What has been noted stands in front of what is unread. -/
  behind : ∀ {n : Nat} {r : Reference}, s.symbols.references[n]? = some r →
    ∀ t ∈ s.rest.tokens, r.token.Before t
  /-- Nothing is left of the attempts that were taken back. -/
  traceless : ∀ {attempt : Attempt}, s.takenBack attempt → attempt.Traceless
  counted : 0 < s.retreats → ∃ attempt, s.takenBack attempt

namespace Run

variable {o s : State} {trace : List Event}

/-- What a run has read stands in front of what it has left. -/
theorem before_of_mem (ho : o.Sound) (h : Run o trace s) {t u : Token} (ht : t ∈ readBy trace)
    (hu : u ∈ s.rest.tokens) : t.Before u := by
  have horder := ho.order
  rw [h.tokens_eq] at horder
  exact (List.pairwise_append.mp horder).2.2 t ht u hu

/-- A reference to what a run has read, like all earlier ones, stands in front of what is left. -/
theorem behind_push (ho : o.Sound) (h : Run o trace s) (hs : s.Sound) {id : Nat} {token : Token}
    (hnamed : token.IsNamed (readBy trace)) {n : Nat} {r : Reference}
    (hr : (s.symbols.references.push ⟨id, token⟩)[n]? = some r) :
    ∀ t ∈ s.rest.tokens, r.token.Before t := by
  intro t ht
  rw [Array.getElem?_push] at hr
  split at hr
  · cases hr
    exact hnamed.before fun u hu => before_of_mem ho h hu ht
  · exact hs.behind hr t ht

/-- **A run from a sound state leads to a sound state.** -/
theorem sound (ho : o.Sound) (h : Run o trace s) : s.Sound := by
  -- on the run: each step changes a few parts of the state and leaves the others as they are
  induction h with
  | start => exact ho
  | @next trace s e h legal hs =>
    cases e with
    | reads t =>
      refine ⟨hs.eof, fun hsplit => ?_, hs.order.sublist (List.tail_sublist _), hs.table,
        fun hr u hu => hs.behind hr u (List.mem_of_mem_tail hu), hs.traceless, hs.counted⟩
      exact absurd (legal.1.symm.trans hsplit) (Option.some_ne_none _).symm
    | splits t =>
      exact ⟨hs.eof, id, hs.order.sublist (List.tail_sublist _), hs.table,
        fun hr u hu => hs.behind hr u (List.mem_of_mem_tail hu), hs.traceless, hs.counted⟩
    | readsHalf t =>
      exact ⟨hs.eof, fun hsplit => absurd hsplit (Option.some_ne_none _).symm, hs.order, hs.table,
        hs.behind, hs.traceless, hs.counted⟩
    | refers kind id t =>
      exact ⟨hs.eof, hs.split, hs.order, hs.table.addReference (hs.table.lt_of_key legal.1) t,
        behind_push ho h hs legal.2.1, hs.traceless, hs.counted⟩
    | creates meaning t =>
      exact ⟨hs.eof, hs.split, hs.order, hs.table.create legal.1, behind_push ho h hs legal.2.1,
        hs.traceless, hs.counted⟩
    | promotes id t =>
      obtain ⟨⟨symbol, hsymbol, hkey, -⟩, hnamed, -⟩ := legal
      have hid : id < s.symbols.symbols.size := (Array.getElem?_eq_some_iff.mp hsymbol).1
      refine ⟨hs.eof, hs.split, hs.order, hs.table.promote hid fun other hother => ?_,
        behind_push ho h hs hnamed, hs.traceless, hs.counted⟩
      rw [Option.some.inj (hother.symm.trans hsymbol)]
      exact congrArg SymbolKey.kind hkey
    | givesUp attempt =>
      refine ⟨hs.eof, hs.split, hs.order, hs.table, hs.behind, fun ha => ?_,
        fun _ => ⟨attempt, Or.inr rfl⟩⟩
      rcases ha with ha | rfl
      · exact hs.traceless ha
      · exact legal
    | _ => exact ⟨hs.eof, hs.split, hs.order, hs.table, hs.behind, hs.traceless, hs.counted⟩

end Run

end BasicCheck.Parse
