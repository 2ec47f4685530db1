import BasicCheck.Proofs.Extent.Order
import BasicCheck.Proofs.Recovery.Line

/-!
# The record of recoveries

What holds of the record while the tokens of a text are read: between the faults of any two recoveries
a separator stands, and a recovery from an attempt that began with no arm, no loop and no choice goes
on behind the first separator of its line (`Sound`). For the next fault to stand apart from all of
those before it, reading must have passed a separator since the last of them (`Ready`), or else there
is nothing left to fail at (`Done`). A parser of statements minds all of this, however it ends
(`Minds`), and whoever recovers from its faults keeps it (**`reaches_recover`**).
-/

namespace BasicCheck

namespace Parse

/-- Tokens that end with the end of the file, which is found nowhere else. -/
def EndsOnce (tokens : List Token) : Prop :=
  ∀ front t behind, tokens = front ++ t :: behind → (t.kind = .endOfFile ↔ behind = [])

theorem EndsOnce.suffix {tokens more : List Token} (h : EndsOnce tokens) (g : more <:+ tokens) :
    EndsOnce more := by
  obtain ⟨read, rfl⟩ := g
  intro front t behind hmore
  refine h (read ++ front) t behind ?_
  rw [hmore, List.append_assoc]

/-- Reading goes on behind the first separator, or at the end of the file if there is none. -/
def Resumes (before after : List Token) : Prop :=
  ∃ line, (∀ t ∈ line, t.kind.isSeparator = false) ∧
    ((∃ t, t.kind.isSeparator ∧ before = line ++ t :: after) ∨
      before = line ++ after ∧ ∀ t ∈ after, t.kind = .endOfFile)

/-- A line may begin further in front. -/
theorem Resumes.before {read before after : List Token} (h : Resumes before after)
    (hread : ∀ t ∈ read, t.kind.isSeparator = false) : Resumes (read ++ before) after := by
  obtain ⟨line, hline, hend⟩ := h
  refine ⟨read ++ line, List.forall_mem_append.mpr ⟨hread, hline⟩, ?_⟩
  rcases hend with ⟨t, ht, rfl⟩ | ⟨rfl, hafter⟩
  · exact Or.inl ⟨t, ht, (List.append_assoc _ _ _).symm⟩
  · exact Or.inr ⟨(List.append_assoc _ _ _).symm, hafter⟩

/-- At most one separator is read. -/
theorem Resumes.countP_le {before after : List Token} (h : Resumes before after) :
    before.countP (·.kind.isSeparator) ≤ after.countP (·.kind.isSeparator) + 1 := by
  obtain ⟨line, hline, hend⟩ := h
  have hnone : line.countP (·.kind.isSeparator) = 0 :=
    List.countP_eq_zero.mpr fun t ht => Bool.not_eq_true _ ▸ hline t ht
  rcases hend with ⟨t, ht, rfl⟩ | ⟨rfl, -⟩
  · rw [List.countP_append, hnone, List.countP_cons, if_pos ht]
    omega
  · rw [List.countP_append, hnone]
    omega

namespace Recovery

/-- A separator behind a `->` was taken for the name of a member and lost. -/
def LosesLine (r : Recovery) : Prop :=
  ∃ line sign separator rest, (∀ t ∈ line, t.kind.isSeparator = false) ∧ sign.kind = .arrow ∧
    separator.kind.isSeparator ∧ r.before = line ++ sign :: separator :: rest ∧
    r.fault = ⟨.expectedIdent, separator.span⟩ ∧ Resumes rest r.after

/-- Reading goes on where the next statement starts, unless a line was lost. -/
def Lawful (r : Recovery) : Prop := Resumes r.before r.after ∨ r.LosesLine

/-- A separator stands behind the fault of one recovery, or at it, and before that of another. -/
def Apart (tokens : List Token) (r r' : Recovery) : Prop :=
  ∃ t ∈ tokens, t.kind.isSeparator ∧ r.fault.span.start ≤ t.span.start ∧
    t.span.start < r'.fault.span.start

end Recovery

end Parse

namespace Grammar

open Parse

variable {α β : Type} {o s u v : State} {tokens : List Token} {n : Nat}

/-! ## 1. Invariants -/

/-- What holds all the way while some tokens are read and at least `n` arms, bodies of loops and
    choices were begun. -/
structure Sound (tokens : List Token) (n : Nat) (s : State) : Prop where
  orderly : Orderly s
  closed : EndsOnce tokens
  suffix : s.rest.tokens <:+ tokens
  begun : n ≤ s.begun
  apart : s.recoveries.toList.Pairwise (Recovery.Apart tokens)
  lawful : ∀ r ∈ s.recoveries.toList, r.begun = false → r.Lawful
  reported : ∀ r ∈ s.recoveries.toList, .ofFault r.fault ∈ s.diagnostics.toList

/-- A separator stands between the faults of all recoveries and a place. -/
def Settled (tokens : List Token) (s : State) (place : Place) : Prop :=
  ∀ r ∈ s.recoveries.toList, ∃ t ∈ tokens, t.kind.isSeparator ∧ r.fault.span.start ≤ t.span.start ∧
    t.span.start < place

/-- A fault may be found. -/
structure Ready (tokens : List Token) (n : Nat) (s : State) : Prop extends Sound tokens n s where
  settled : Settled tokens s (here s)

/-- A fault may be found unless the file ends, where there is none. -/
structure Done (tokens : List Token) (n : Nat) (s : State) : Prop extends Sound tokens n s where
  settled : s.current.kind ≠ .endOfFile → Settled tokens s (here s)

/-- A fault was found that may be recovered from. -/
structure Failed (tokens : List Token) (n : Nat) (f : Fault) (s : State) : Prop
    extends Sound tokens n s where
  settled : Settled tokens s f.span.start
  passed : f.span.start ≤ here s

theorem Settled.mono {place place' : Place} (h : Settled tokens s place) (hle : place ≤ place')
    (hsame : u.recoveries = s.recoveries) : Settled tokens u place' := by
  intro r hr
  rw [hsame] at hr
  obtain ⟨t, ht, hseparator, hafter, hbefore⟩ := h r hr
  exact ⟨t, ht, hseparator, hafter, Place.lt_of_lt_of_le hbefore hle⟩

/-- Where the file ends nothing but its end is left. -/
theorem kind_of_mem_of_ended (hclosed : EndsOnce s.rest.tokens) (hend : s.current.kind = .endOfFile) :
    ∀ t ∈ s.rest.tokens, t.kind = .endOfFile := by
  have hwhole : s.split = none := split_eq_none (by rw [hend]; decide)
  unfold State.current at hend
  rw [hwhole] at hend
  cases hrest : s.rest.tokens with
  | nil => exact List.forall_mem_nil _
  | cons t behind =>
    rw [hrest] at hend
    rw [(hclosed [] t behind hrest).mp hend]
    exact List.forall_mem_singleton.mpr hend

/-- Where the file ends reading stays. -/
theorem Past.endOfFile (h : Past s u) (hs : s.Regular) (hclosed : EndsOnce s.rest.tokens)
    (hend : s.current.kind = .endOfFile) : u.current.kind = .endOfFile := by
  have hu := h.regular hs
  obtain ⟨read, hread⟩ := h.reads
  have hwhole : s.split = none := split_eq_none (by rw [hend]; decide)
  have hkinds := kind_of_mem_of_ended hclosed hend
  rw [hread.tokens] at hkinds
  obtain ⟨hfront, hbehind⟩ := List.forall_mem_append.mp hkinds
  -- half of a token is left only behind a `>=`, and none stands at the end of the file
  have hnone : u.split = none := by
    cases hsplit : u.split with
    | none => rfl
    | some whole =>
      obtain ⟨hlast, hkind, -⟩ := hu.half hsplit
      rw [hread.last] at hlast
      cases hgetLast : read.getLast? with
      | none =>
        rcases hread.split (List.getLast?_eq_none_iff.mp hgetLast) with hsame | hnone
        · rw [← hsplit, hsame, hwhole]
        · rw [← hsplit, hnone]
      | some last =>
        rw [hgetLast] at hlast
        cases hlast
        rw [hfront whole (List.mem_of_getLast? hgetLast)] at hkind
        cases hkind
  unfold State.current
  rw [hnone]
  cases hrest : u.rest.tokens with
  | nil => exact hu.ended
  | cons t rest => exact hbehind t (by rw [hrest]; exact List.mem_cons_self)

namespace Sound

theorem quiet (h : Sound tokens n s) (g : Quiet s u) : Sound tokens n u where
  orderly := h.orderly.past g.past
  closed := h.closed
  suffix := g.past.suffix.trans h.suffix
  begun := by
    rw [g.begun]
    exact h.begun
  apart := by
    rw [g.recoveries]
    exact h.apart
  lawful := by
    rw [g.recoveries]
    exact h.lawful
  reported := by
    rw [g.recoveries]
    exact fun r hr => g.past.faults.subset (h.reported r hr)

theorem lower {m : Nat} (h : Sound tokens n s) (hle : m ≤ n) : Sound tokens m s :=
  { h with begun := Nat.le_trans hle h.begun }

theorem enter (h : Sound tokens n s) : Sound tokens n s.enter :=
  ⟨h.orderly.enter, h.closed, h.suffix, h.begun, h.apart, h.lawful, h.reported⟩

theorem leave (h : Sound tokens n s) : Sound tokens n s.leave :=
  ⟨⟨⟨h.orderly.regular.ended, h.orderly.regular.half⟩, h.orderly.order, h.orderly.measured⟩,
    h.closed, h.suffix, h.begun, h.apart, h.lawful, h.reported⟩

/-- A recovery is noted from a fault that stands apart from all of those before it. -/
theorem noted {r : Recovery} (h : Sound tokens n s) (hsettled : Settled tokens s r.fault.span.start)
    (hlawful : r.begun = false → r.Lawful) (hreported : .ofFault r.fault ∈ s.diagnostics.toList) :
    Sound tokens n { s with recoveries := s.recoveries.push r } where
  orderly := ⟨⟨h.orderly.regular.ended, h.orderly.regular.half⟩, h.orderly.order, h.orderly.measured⟩
  closed := h.closed
  suffix := h.suffix
  begun := h.begun
  apart := by
    rw [Array.toList_push]
    refine List.pairwise_append.mpr ⟨h.apart, List.pairwise_singleton _ _, fun r' hr' r'' hr'' => ?_⟩
    rw [List.mem_singleton.mp hr'']
    exact hsettled r' hr'
  lawful := by
    rw [Array.toList_push]
    exact List.forall_mem_append.mpr ⟨h.lawful, List.forall_mem_singleton.mpr hlawful⟩
  reported := by
    rw [Array.toList_push]
    exact List.forall_mem_append.mpr ⟨h.reported, List.forall_mem_singleton.mpr hreported⟩

theorem here_le (h : Sound tokens n s) (g : Quiet s u) : here s ≤ here u :=
  g.past.here_le h.orderly

end Sound

namespace Ready

theorem quiet (h : Ready tokens n s) (g : Quiet s u) : Ready tokens n u :=
  ⟨h.toSound.quiet g, h.settled.mono (h.here_le g) g.recoveries⟩

/-- Nothing is asked of what was begun but that it is counted. -/
theorem own (h : Ready tokens n s) : Ready tokens s.begun s :=
  ⟨{ h.toSound with begun := Nat.le_refl _ }, h.settled⟩

theorem done (h : Ready tokens n s) : Done tokens n s := ⟨h.toSound, fun _ => h.settled⟩

/-- A fault that is found on the line. -/
theorem failed {f : Fault} (h : Ready tokens n s) (g : Stuck s f u) : Failed tokens n f u := by
  obtain ⟨m, front, back, hspan⟩ := g.exists_between
  have hm := h.quiet front
  refine ⟨h.toSound.quiet g.quiet, ?_, ?_⟩
  · rw [hspan]
    exact h.settled.mono (h.here_le front) (back.recoveries.trans front.recoveries)
  · rw [hspan]
    exact hm.here_le back

end Ready

namespace Done

theorem ready (h : Done tokens n s) (hk : s.current.kind ≠ .endOfFile) : Ready tokens n s :=
  ⟨h.toSound, h.settled hk⟩

theorem quiet (h : Done tokens n s) (g : Quiet s u) : Done tokens n u := by
  refine ⟨h.toSound.quiet g, fun hu => ?_⟩
  have hs : s.current.kind ≠ .endOfFile := fun hend =>
    hu (g.past.endOfFile h.orderly.regular (h.closed.suffix h.suffix) hend)
  exact ((h.ready hs).quiet g).settled

theorem lower {m : Nat} (h : Done tokens n s) (hle : m ≤ n) : Done tokens m s :=
  ⟨h.toSound.lower hle, h.settled⟩

theorem enter (h : Done tokens n s) : Done tokens n s.enter := ⟨h.toSound.enter, h.settled⟩

theorem leave (h : Done tokens n s) : Done tokens n s.leave := ⟨h.toSound.leave, h.settled⟩

end Done

theorem Failed.lower {f : Fault} {m : Nat} (h : Failed tokens n f s) (hle : m ≤ n) :
    Failed tokens m f s :=
  ⟨h.toSound.lower hle, h.settled, h.passed⟩

/-! ## 2. What steps and parsers reach -/

/-- A step reaches a state where `Q` holds. -/
def Reaches (s : State) (p : Step α) (Q : α → State → Prop) : Prop := Q (p s).1 (p s).2

namespace Reaches

variable {p : Step α} {f : α → Step β} {Q R : α → State → Prop} {R' : β → State → Prop}

theorem mono (hp : Reaches s p Q) (h : ∀ a u, Q a u → R a u) : Reaches s p R := h _ _ hp

theorem bind (hp : Reaches s p Q) (hf : ∀ a u, Q a u → Reaches u (f a) R') : Reaches s (p >>= f) R' :=
  hf _ _ hp

/-- A step that only looks at the state. -/
theorem look {a : α} (hp : p s = (a, s)) (hf : Reaches s (f a) R') : Reaches s (p >>= f) R' := by
  unfold Reaches
  rw [step_bind hp]
  exact hf

theorem dropped {Q : State → Prop} (hp : Reaches s p fun _ => Q) :
    Reaches s (discard p) fun _ => Q := hp

end Reaches

/-- What holds where a parser ends: `Q` if it succeeds, else `E`. -/
def Lands (Q : α → State → Prop) (E : Fault → State → Prop) : Except Fault α → State → Prop
  | .ok a, u => Q a u
  | .error f, u => E f u

/-- A parser in front of another one, which is not used if it fails. -/
theorem reaches_bind {p : Parser α} {f : α → Parser β} {Q : α → State → Prop}
    {E : Fault → State → Prop} {R : Except Fault β → State → Prop} (hp : Reaches s p.run (Lands Q E))
    (hf : ∀ a u, Q a u → Reaches u (f a).run R) (hfail : ∀ f u, E f u → R (.error f) u) :
    Reaches s (p >>= f).run R := by
  rw [ExceptT.run_bind]
  refine Reaches.bind hp fun r u hr => ?_
  cases r with
  | ok a => exact hf a u hr
  | error fault => exact hfail fault u hr

/-- A step is a parser that never fails. -/
theorem reaches_step {p : Step α} {Q : α → State → Prop} {E : Fault → State → Prop}
    (hp : Reaches s p Q) : Reaches s (liftM p : Parser α).run (Lands Q E) := hp

/-- A step in front of a parser. -/
theorem reaches_after {p : Step α} {f : α → Parser β} {Q : α → State → Prop}
    {R : Except Fault β → State → Prop} (hp : Reaches s p Q)
    (hf : ∀ a u, Q a u → Reaches u (f a).run R) : Reaches s (liftM p >>= f : Parser β).run R :=
  reaches_bind (reaches_step (E := fun _ _ => False) hp) hf fun _ _ hno => hno.elim

/-- A step in front of a parser that has no use for what it gives. -/
theorem reaches_discard {p : Step α} {f : PUnit → Parser β} {Q : State → Prop}
    {R : Except Fault β → State → Prop} (hp : Reaches s p fun _ u => Q u)
    (hf : ∀ u, Q u → Reaches u (f ⟨⟩).run R) : Reaches s (discard (liftM p : Parser α) >>= f).run R :=
  reaches_bind (Q := fun _ u => Q u) (E := fun _ _ => False) hp (fun _ u hu => hf u hu)
    fun _ _ hno => hno.elim

/-- A step that only looks at the state, in front of a parser. -/
theorem reaches_look {p : Step α} {f : α → Parser β} {a : α} {R : Except Fault β → State → Prop}
    (hp : p s = (a, s)) (hf : Reaches s (f a).run R) : Reaches s (liftM p >>= f : Parser β).run R := by
  have hrun : (liftM p >>= f : Parser β).run s = (f a).run s := run_after hp
  unfold Reaches
  rw [hrun]
  exact hf

/-- What a turn of a loop carries on with, or ends with. -/
def Carries (I : α → State → Prop) (Q : β → State → Prop) : Turn α β → State → Prop
  | .again a, u => I a u
  | .done b, u => Q b u

/-- What all turns of a loop carry on with, its last turn ends with. -/
theorem Runs.carries {turn : α → Step (Turn α β)} {a : α} {b : β} {I : α → State → Prop}
    {Q : β → State → Prop} (h : Runs turn a s b u) (hs : I a s)
    (hturn : ∀ a s, I a s → Reaches s (turn a) (Carries I Q)) : Q b u := by
  induction h with
  | @done a b s u last _ =>
    have hlast := hturn a s hs
    unfold Reaches at hlast
    rwa [last] at hlast
  | @again a a' b s m u first _ _ _ ih =>
    have hfirst := hturn a s hs
    unfold Reaches at hfirst
    rw [first] at hfirst
    exact ih hfirst

/-- A loop ends with what all of its turns carry on with, even if it is given up. -/
theorem reaches_loop {turn : α → Step (Turn α β)} {giveUp : α → β} {a : α} {I : α → State → Prop}
    {Q : β → State → Prop} (hstart : I a s)
    (hturn : ∀ a u, I a u → Reaches u (turn a) (Carries I Q))
    (hgiveUp : ∀ a u, I a u → Q (giveUp a) u) : Reaches s (loop turn giveUp a) Q := by
  have hturns (n : Nat) : ∀ a u, I a u → Reaches u (loopUpTo turn giveUp n a) Q := by
    induction n with
    | zero => exact hgiveUp
    | succ n ih =>
      intro a u hI
      have hend := hturn a u hI
      unfold Reaches at hend ⊢
      rcases hr : turn a u with ⟨outcome, v⟩
      rw [hr] at hend
      cases outcome with
      | again a' =>
        rw [loopUpTo_again hr]
        exact ih a' v hend
      | done b =>
        rw [loopUpTo_done hr]
        exact hend
  exact hturns _ a s hstart

/-- A loop whose turns may fail ends so unless one of them fails. -/
theorem reaches_tryLoop {body : α → Parser (Turn α β)} {a : α} {I : α → State → Prop}
    {Q : β → State → Prop} {E : Fault → State → Prop} (hstart : I a s)
    (hbody : ∀ a u, I a u → Reaches u (body a).run (Lands (Carries I Q) E))
    (hstill : ∀ a u, I a u → E standstill u) : Reaches s (tryLoop body a).run (Lands Q E) := by
  have hturn (a : α) (u : State) (hI : I a u) : Reaches u (tryTurn body a) (Carries I (Lands Q E)) := by
    refine (hbody a u hI).bind fun r v hr => ?_
    cases r with
    | ok turn => cases turn <;> exact hr
    | error fault => exact hr
  exact reaches_loop hstart hturn hstill

/-- How a parser that minds the record ends: where it succeeds without having begun anything, no
    separator was read, unless what it gives needs none. -/
def Minded (tokens : List Token) (P : α → Prop) (s : State) : Except Fault α → State → Prop :=
  Lands (fun a u => Done tokens s.begun u ∧ (u.begun = s.begun → P a ∨ SameLine s u))
    (fun f u => Failed tokens s.begun f u ∧ (u.begun = s.begun → Stuck s f u))

/-- Once something was begun nothing is owed about lines. -/
theorem Done.minded {P : α → Prop} {a : α} (h : Done tokens (s.begun + 1) u) :
    Minded tokens P s (.ok a) u := by
  refine ⟨h.lower (Nat.le_succ _), fun hsame => absurd h.begun ?_⟩
  omega

theorem Failed.minded {P : α → Prop} {f : Fault} (h : Failed tokens (s.begun + 1) f u) :
    Minded tokens P s (.error f) u := by
  refine ⟨h.lower (Nat.le_succ _), fun hsame => absurd h.begun ?_⟩
  omega

/-- From a state on, a parser minds the record. -/
def Minds (tokens : List Token) (P : α → Prop) (s : State) (p : Parser α) : Prop :=
  Ready tokens s.begun s → Reaches s p.run (Minded tokens P s)

theorem Minded.after {P : α → Prop} {r : Except Fault α} (h : SameLine o s)
    (g : Minded tokens P s r u) : Minded tokens P o r u := by
  unfold Minded at *
  rw [h.begun] at g
  cases r with
  | ok a =>
    refine ⟨g.1, fun hsame => ?_⟩
    rcases g.2 hsame with hfree | hline
    · exact Or.inl hfree
    · exact Or.inr (h.trans hline)
  | error fault => exact ⟨g.1, fun hsame => .after h (g.2 hsame)⟩

/-- What holds on the line is minded. -/
theorem Ends.minded {P : α → Prop} {r : Except Fault α} (h : Ends s (r, u))
    (hs : Ready tokens s.begun s) : Minded tokens P s r u := by
  cases r with
  | ok a => exact ⟨(hs.quiet (SameLine.toQuiet h)).done, fun _ => Or.inr h⟩
  | error fault => exact ⟨hs.failed h, fun _ => h⟩

/-- A parser that heeds lines minds the record. -/
theorem Heeds.minds {P : α → Prop} {p : Parser α} (h : Heeds s p) : Minds tokens P s p := fun hs =>
  Ends.minded (h hs.orderly.regular) hs

namespace Minds

variable {p : Parser α} {f : α → Parser β} {P : α → Prop} {P' : β → Prop}

/-- A parser behind one that heeds lines. -/
theorem after (hp : Heeds s p) (hf : ∀ a u, SameLine s u → Minds tokens P' u (f a)) :
    Minds tokens P' s (p >>= f) := by
  intro hs
  have hends : Reaches s p.run (Lands (fun _ => SameLine s) (Stuck s)) := by
    have hline := hp hs.orderly.regular
    unfold Reaches
    rcases hr : p.run s with ⟨r, u⟩
    rw [hr] at hline
    cases r <;> exact hline
  refine reaches_bind hends (fun a u hu => ?_) fun fault u hu => ⟨hs.failed hu, fun _ => hu⟩
  exact Minded.after hu (hf a u hu (hs.quiet hu.toQuiet).own)

/-- A step that only looks at the state, in front of a parser. -/
theorem look {p : Step α} {a : α} (hp : p s = (a, s)) (hf : Minds tokens P' s (f a)) :
    Minds tokens P' s (liftM p >>= f) :=
  fun hs => reaches_look hp (hf hs)

/-- A parser in front of what may go wrong no more. -/
theorem bind (hp : Minds tokens P s p) (hf : ∀ a u, Done tokens s.begun u →
    (u.begun = s.begun → P a ∨ SameLine s u) → Reaches u (f a).run (Minded tokens P' s)) :
    Minds tokens P' s (p >>= f) :=
  fun hs => reaches_bind (hp hs) (fun a u hu => hf a u hu.1 hu.2) fun _ _ hu => hu

/-- A step that begins something. -/
theorem step {p : Step α}
    (hp : Ready tokens s.begun s → Reaches s p fun _ u => Done tokens (s.begun + 1) u) :
    Minds tokens P s (liftM p) :=
  fun hs => (hp hs).minded

end Minds

/-! ## 3. Recovery -/

/-- Nothing is recorded while tokens are skipped. -/
theorem quiet_skipWhile (skipped : Kind → Bool) (hend : skipped .endOfFile = false)
    (hs : s.Regular) : Quiet s (skipWhile skipped s).2 := by
  have hruns : Runs (skipTurn skipped) () s () (skipWhile skipped s).2 :=
    runs_loop id hs (Skips.refl skipped s) fun _ _ _ h => (goes_skipTurn hend h).proceeds
  refine hruns.carries (I := fun _ => Quiet s) (Q := fun _ => Quiet s) (.refl s) fun _ m hm => ?_
  refine Reaches.look (currentKind_eq m) ?_
  split
  · exact hm.trans (.advance m)
  · exact hm

theorem quiet_consume (kind : Kind) (hs : s.Regular) : Quiet s (consume kind s).2 := by
  obtain ⟨-, hread⟩ := goes_consume (s := s) kind hs
  rcases hread with ⟨-, -, hread⟩ | ⟨-, -, hread⟩ <;> rw [hread]
  · exact .advance s
  · exact .refl s

/-- How reading goes on behind a fault. -/
inductive Syncs (s : State) : State → Prop where
  /-- Behind the next separator. -/
  | behind {m : State} (line : SameLine s m) (separator : m.current.kind.isSeparator) :
      Syncs s m.advance.2
  /-- At the end of the file. -/
  | ended {u : State} (line : SameLine s u) (hend : u.current.kind = .endOfFile) : Syncs s u

theorem Syncs.quiet (h : Syncs s u) : Quiet s u := by
  cases h with
  | behind line _ => exact line.toQuiet.trans (.advance _)
  | ended line _ => exact line.toQuiet

theorem syncs_synchronize (hs : s.Regular) : Reaches s synchronize fun _ u => Syncs s u := by
  have hquiet := quiet_skipWhile (fun kind => !kind.isSeparator && kind != .endOfFile) rfl hs
  obtain ⟨-, hstop, -, -, hskipped⟩ :=
    goes_skipWhile (fun kind => !kind.isSeparator && kind != .endOfFile) rfl hs
  refine Reaches.bind (Q := fun _ m => SameLine s m ∧
    (m.current.kind.isSeparator ∨ m.current.kind = .endOfFile))
    ⟨⟨hquiet, fun read htokens t ht => ?_⟩, ?_⟩ fun _ m hm => Reaches.look (sees_eq m .endOfFile) ?_
  · have ht' := hskipped read htokens t ht
    simp only [Bool.and_eq_true, Bool.not_eq_true'] at ht'
    exact ht'.1
  · revert hstop
    simp only [Bool.and_eq_false_iff, Bool.not_eq_false', bne_eq_false_iff_eq]
    exact id
  · obtain ⟨hline, hnext⟩ := hm
    split
    · rename_i hend
      exact .ended hline (eq_of_beq hend)
    · rename_i hno
      refine Syncs.behind hline (hnext.resolve_right fun hend => hno (beq_iff_eq.mpr hend))

/-- A word that comes next is read by a step forward, and what stands behind it is left. -/
theorem tokens_of_isWord (hs : s.Regular) (hk : s.current.kind.IsWord) :
    s.rest.tokens = s.current :: s.advance.2.rest.tokens := by
  rw [hs.advance_of_isWord hk]
  exact (hs.rest_of_isWord hk).2

namespace Syncs

theorem resumes (h : Syncs s u) (hs : s.Regular) (hclosed : EndsOnce s.rest.tokens) :
    Resumes s.rest.tokens u.rest.tokens := by
  cases h with
  | @behind m line separator =>
    obtain ⟨read, hread⟩ := line.past.reads
    have hword := Kind.isWord_of_isSeparator separator
    refine ⟨read, line.line read hread.tokens, Or.inl ⟨m.current, separator, ?_⟩⟩
    rw [hread.tokens, tokens_of_isWord (line.past.regular hs) hword]
  | ended line hend =>
    obtain ⟨read, hread⟩ := line.past.reads
    refine ⟨read, line.line read hread.tokens, Or.inr ⟨hread.tokens, ?_⟩⟩
    exact kind_of_mem_of_ended (hclosed.suffix line.past.suffix) hend

/-- **A separator is passed** unless the file ends. -/
theorem passes (h : Syncs s u) (hs : Orderly s) (hclosed : EndsOnce s.rest.tokens)
    (hu : u.current.kind ≠ .endOfFile) : ∃ t ∈ s.rest.tokens, t.kind.isSeparator ∧
      here s ≤ t.span.start ∧ t.span.start < here u := by
  cases h with
  | ended _ hend => exact absurd hend hu
  | @behind m line separator =>
    have hword := Kind.isWord_of_isSeparator separator
    have hm := hs.past line.past
    have htokens := tokens_of_isWord hm.regular hword
    have hmem : m.current ∈ s.rest.tokens := by
      refine line.past.suffix.subset ?_
      rw [htokens]
      exact List.mem_cons_self
    refine ⟨m.current, hmem, separator, line.past.here_le hs, ?_⟩
    -- the separator is not the last token, since only the end of the file is
    cases hrest : m.advance.2.rest.tokens with
    | nil =>
      rw [hrest] at htokens
      have hend := ((hclosed.suffix line.past.suffix) [] m.current [] htokens).mpr rfl
      exact absurd hend hword.1
    | cons next behind =>
      have hnext : m.advance.2.current = next := by
        unfold State.current
        rw [m.split_advance, hrest]
        rfl
      have horder := (List.pairwise_append.mp hm.order).2.1
      rw [htokens, hrest] at horder
      unfold here
      rw [hnext]
      exact (List.rel_of_pairwise_cons horder List.mem_cons_self).1

end Syncs

/-- Whoever is stuck on a line goes on behind it. -/
theorem Stuck.lawful {f : Fault} {m : State} (h : Stuck s f u) (hs : s.Regular)
    (hsame : m.rest = u.rest) (g : Resumes m.rest.tokens v.rest.tokens) (begun : Bool) :
    (Recovery.mk f s.rest.tokens v.rest.tokens begun).Lawful := by
  rw [hsame] at g
  cases h with
  | here front back _ =>
    have hline := front.trans back
    obtain ⟨read, hread⟩ := hline.past.reads
    left
    show Resumes s.rest.tokens v.rest.tokens
    rw [hread.tokens]
    exact g.before (hline.line read hread.tokens)
  | @member m front sign separator =>
    obtain ⟨read, hread⟩ := front.past.reads
    have hm := front.past.regular hs
    have hsign : m.current.kind.IsWord := by
      rw [sign]
      decide
    have hlost := tokens_of_isWord ((Past.advance m).regular hm) (Kind.isWord_of_isSeparator separator)
    refine Or.inr ⟨read, m.current, m.advance.2.current, _, front.line read hread.tokens, sign,
      separator, ?_, rfl, g⟩
    rw [hread.tokens, tokens_of_isWord hm hsign, hlost]

/-- **Recovery** keeps the faults apart and loses nothing but what was lost before. -/
theorem reaches_recover {p : Parser α} {P : α → Prop} (standIn : α) (hs : Ready tokens n s)
    (hp : Minds tokens P s p) : Reaches s (recover standIn p) fun _ u => Done tokens n u := by
  refine Reaches.look (outset_eq s) (Reaches.bind (hp hs.own) fun r u hr => ?_)
  -- what is read keeps what it kept; after a fault the record of the recovery is new
  cases r with
  | ok a => exact hr.1.lower hs.begun
  | error f =>
    obtain ⟨hfailed, hstuck⟩ := hr
    obtain ⟨m, hm⟩ : ∃ m, m = (reportFault f u).2 := ⟨_, rfl⟩
    have hreport : Quiet u m := by
      rw [hm]
      exact ⟨(goes_reportFault f hfailed.orderly.regular).1, rfl, rfl, rfl⟩
    have hrest : m.rest = u.rest := hm ▸ rfl
    have hnew : .ofFault f ∈ m.diagnostics.toList := by
      rw [hm]
      show _ ∈ (u.diagnostics.push _).toList
      rw [Array.toList_push]
      exact List.mem_append_right _ (List.mem_singleton_self _)
    have hsound := hfailed.toSound.quiet hreport
    have hclosed := hsound.closed.suffix hsound.suffix
    refine Reaches.bind (Q := fun _ v => v = m) hm.symm fun _ v hv => ?_
    subst hv
    refine Reaches.bind (syncs_synchronize hsound.orderly.regular) fun _ w hsyncs => ?_
    have hw := hsound.quiet hsyncs.quiet
    have hsame : w.recoveries = u.recoveries := hsyncs.quiet.recoveries.trans hreport.recoveries
    have hsettled : Settled tokens w f.span.start := hfailed.settled.mono (Place.le_refl _) hsame
    have hpassed : f.span.start ≤ here v := Place.le_trans hfailed.passed (hfailed.here_le hreport)
    have hmoves : here v ≤ here w := hsound.here_le hsyncs.quiet
    -- if no construct began within what failed, it failed on its own line
    have hlawful (hbegun : (w.recovery ⟨s.rest.tokens, s.begun⟩ f).begun = false) :
        (w.recovery ⟨s.rest.tokens, s.begun⟩ f).Lawful := by
      have hcount : w.begun = u.begun := hsyncs.quiet.begun.trans hreport.begun
      have hnone : ¬ s.begun < w.begun := of_decide_eq_false hbegun
      have hstart : u.begun = s.begun := Nat.le_antisymm (by omega) hfailed.begun
      exact (hstuck hstart).lawful hs.orderly.regular hrest
        (hsyncs.resumes hsound.orderly.regular hclosed) _
    have hreported := hsyncs.quiet.past.faults.subset hnew
    refine ⟨(hw.noted hsettled hlawful hreported).lower hs.begun, fun hgoes => ?_⟩
    -- the recoveries recorded before were settled in front of the fault; the new one is settled by the
    -- separator that it stops at
    intro r hr
    obtain ⟨t, ht, hseparator, hafter, hbefore⟩ :=
      hsyncs.passes hsound.orderly hclosed hgoes
    have hall : r ∈ w.recoveries.toList ++ [w.recovery ⟨s.rest.tokens, s.begun⟩ f] := by
      rw [← Array.toList_push]
      exact hr
    rcases List.mem_append.mp hall with hold | hnew
    · obtain ⟨t', ht', hseparator', hafter', hbefore'⟩ := hsettled r hold
      refine ⟨t', ht', hseparator', hafter', Place.lt_of_lt_of_le hbefore' ?_⟩
      exact Place.le_trans hpassed hmoves
    · rw [List.mem_singleton.mp hnew]
      refine ⟨t, hsound.suffix.subset ht, hseparator, Place.le_trans hpassed hafter, hbefore⟩

end Grammar

end BasicCheck
