import BasicCheck.Proofs.Parse.Evaluate
import BasicCheck.Proofs.Grammar.Onward

/-!
# What parsers do from a state

A step goes from a state to one behind it, where something holds (`Goes`); a parser that may fail
owes this only if it succeeds, and an error if it fails (`Tries`). The rules follow the ways in which
the grammar puts parsers together. A loop ends because each of its turns but the last consumes
something (**`Goes.loop`**, **`Tries.tryLoop`**), so that nothing need be said about loops that are
given up.
-/

namespace BasicCheck.Grammar

open Parse

variable {α β : Type} {s u v : State}

/-- A step goes to a later state, where `Q` holds. -/
def Goes (s : State) (p : Step α) (Q : α → State → Prop) : Prop :=
  s.Regular → Onward s (p s).2 ∧ Q (p s).1 (p s).2

/-- What a parser owes: `Q` if it succeeds, else an error. -/
def Owes (Q : α → State → Prop) : Except Fault α → State → Prop
  | .ok a, u => Q a u
  | .error f, _ => f.cause.severity = .error

/-- A parser goes to a later state and does there what it owes. -/
def Tries (s : State) (p : Parser α) (Q : α → State → Prop) : Prop := Goes s p.run (Owes Q)

/-- What a turn of a loop ends with: the invariant and progress if the loop goes on, else what the
    loop ends with. -/
def Turns (J : α → State → Prop) (Q : β → State → Prop) (s : State) : Turn α β → State → Prop
  | .again a, u => J a u ∧ Consumes s u
  | .done b, u => Q b u

/-! ## 1. Steps -/

namespace Goes

variable {p : Step α} {f : α → Step β} {Q R : α → State → Prop} {R' : β → State → Prop}

theorem mono (hp : Goes s p Q) (h : ∀ a u, Onward s u → Q a u → R a u) : Goes s p R := by
  intro hs
  obtain ⟨hpast, hQ⟩ := hp hs
  exact ⟨hpast, h _ _ hpast hQ⟩

/-- What lasts is kept, whatever a step does. -/
theorem keeps {I : State → Prop} (hp : Goes s p Q) (hI : Lasting I) (h : I s) :
    Goes s p fun _ u => I u :=
  hp.mono fun _ _ hpast _ => hI hpast h

theorem regular (h : s.Regular → Goes s p Q) : Goes s p Q := fun hs => h hs hs

theorem pure {a : α} (h : Q a s) : Goes s (Pure.pure a) Q := fun _ => ⟨.refl s, h⟩

theorem bind (hp : Goes s p Q) (hf : ∀ a u, Onward s u → Q a u → Goes u (f a) R') :
    Goes s (p >>= f) R' := by
  intro hs
  obtain ⟨hpast, hQ⟩ := hp hs
  obtain ⟨hpast', hR⟩ := hf (p s).1 (p s).2 hpast hQ (hpast.regular hs)
  exact ⟨hpast.trans hpast', hR⟩

/-- A step that only looks at the state. -/
theorem look {a : α} (hp : p s = (a, s)) (hf : Goes s (f a) R') : Goes s (p >>= f) R' := by
  unfold Goes
  rw [step_bind hp]
  exact hf

theorem dropped {Q : State → Prop} (hp : Goes s p fun _ => Q) : Goes s (discard p) fun _ => Q := hp

end Goes

/-! ## 2. Parsers -/

namespace Tries

variable {p : Parser α} {f : α → Parser β} {Q R : α → State → Prop} {R' : β → State → Prop}

theorem mono (hp : Tries s p Q) (h : ∀ a u, Onward s u → Q a u → R a u) : Tries s p R :=
  Goes.mono hp fun r u hpast hr => by
    cases r with
    | ok a => exact h a u hpast hr
    | error fault => exact hr

theorem keeps {I : State → Prop} (hp : Tries s p Q) (hI : Lasting I) (h : I s) :
    Tries s p fun _ u => I u :=
  hp.mono fun _ _ hpast _ => hI hpast h

theorem regular (h : s.Regular → Tries s p Q) : Tries s p Q := fun hs => h hs hs

theorem pure {a : α} (h : Q a s) : Tries s (Pure.pure a) Q := Goes.pure h

theorem throw {fault : Fault} (h : fault.cause.severity = .error) :
    Tries s (MonadExcept.throw fault : Parser α) Q :=
  Goes.pure h

theorem bind (hp : Tries s p Q) (hf : ∀ a u, Onward s u → Q a u → Tries u (f a) R') :
    Tries s (p >>= f) R' := by
  unfold Tries
  rw [ExceptT.run_bind]
  refine Goes.bind hp fun r u hpast hr => ?_
  cases r with
  | ok a => exact hf a u hpast hr
  | error fault => exact Goes.pure hr

theorem given {a : α} (hf : Tries s (f a) R') : Tries s (Pure.pure a >>= f) R' := by
  rw [pure_bind]
  exact hf

/-- Nothing happens behind a parser that fails here. -/
theorem fails {fault : Fault} (hp : p.run s = (.error fault, s))
    (h : fault.cause.severity = .error) : Tries s (p >>= f) R' := by
  have hall : (p >>= f).run s = (.error fault, s) := by
    rw [ExceptT.run_bind]
    exact step_bind hp
  intro _
  rw [hall]
  exact ⟨.refl s, h⟩

/-- A step as a parser. -/
theorem step {p : Step α} (hp : Goes s p Q) : Tries s (liftM p) Q := hp

/-- A step in front of a parser. -/
theorem after {p : Step α} (hp : Goes s p Q) (hf : ∀ a u, Onward s u → Q a u → Tries u (f a) R') :
    Tries s (liftM p >>= f) R' :=
  (step hp).bind hf

/-- A step in front of a parser that only looks at the state. -/
theorem look {p : Step α} {a : α} (hp : p s = (a, s)) (hf : Tries s (f a) R') :
    Tries s (liftM p >>= f) R' := by
  have heq : (liftM p >>= f : Parser β).run = p >>= fun a => (f a).run := rfl
  unfold Tries
  rw [heq]
  exact Goes.look hp hf

theorem get {f : State → Parser β} (hf : Tries s (f s) R') :
    Tries s (MonadState.get >>= f) R' :=
  look (p := MonadState.get) rfl hf

theorem map {g : α → β} (hp : Tries s p fun a => R' (g a)) : Tries s (g <$> p) R' := by
  rw [map_eq_pure_bind]
  exact hp.bind fun a u _ h => pure h

theorem dropped {Q : State → Prop} (hp : Tries s p fun _ => Q) :
    Tries s (discard p) fun _ => Q := by
  unfold discard
  rw [map_const]
  exact map hp

end Tries

/-! ## 3. Steps that need not lead onward

What is bound or named behind its name is accounted for only from the state in front of the name on. A
step that does so need not lead onward of the state that it starts from, but it may lead onward of an
earlier one (`Since`), and it leads to a later state in any case (`Proceeds`). -/

/-- A step goes to a later state, and keeps what is so as long as reading leads onward. -/
def GoesWith (I : State → Prop) (s : State) (p : Step α) (Q : α → State → Prop) : Prop :=
  s.Regular → I s → I (p s).2 ∧ Past s (p s).2 ∧ Q (p s).1 (p s).2

/-- A parser goes to a later state and does there what it owes. -/
def TriesWith (I : State → Prop) (s : State) (p : Parser α) (Q : α → State → Prop) : Prop :=
  GoesWith I s p.run (Owes Q)

/-- A state lies onward of an earlier one. -/
def Since (o u : State) : Prop := o.Regular ∧ Onward o u

theorem lasting_since (o : State) : Lasting (Since o) := fun h g => ⟨g.1, g.2.trans h⟩

/-- A step goes to a later state, wherever that leads to. -/
def Proceeds (s : State) (p : Step α) (Q : α → State → Prop) : Prop := GoesWith (fun _ => True) s p Q

theorem lasting_true : Lasting fun _ => True := fun _ _ => trivial

section With

variable {I : State → Prop} {Q : α → State → Prop} {R : β → State → Prop}

theorem Goes.of_since {p : Step α} (h : GoesWith (Since s) s p Q) : Goes s p Q := by
  intro hs
  obtain ⟨⟨-, honward⟩, -, hQ⟩ := h hs ⟨hs, .refl s⟩
  exact ⟨honward, hQ⟩

theorem Tries.of_since {p : Parser α} (h : TriesWith (Since s) s p Q) : Tries s p Q :=
  Goes.of_since h

/-- A step that leads onward. -/
theorem GoesWith.of_goes {p : Step α} (hI : Lasting I) (h : Goes s p Q) : GoesWith I s p Q := by
  intro hs hinv
  obtain ⟨honward, hQ⟩ := h hs
  exact ⟨hI honward hinv, honward, hQ⟩

theorem Goes.proceeds {p : Step α} (h : Goes s p Q) : Proceeds s p Q := .of_goes lasting_true h

/-- In front of a step. -/
theorem GoesWith.behind {p : Step α} {f : α → Step β} (hI : Lasting I) (hp : Goes s p Q)
    (hf : ∀ a u, Onward s u → Q a u → GoesWith I u (f a) R) : GoesWith I s (p >>= f) R := by
  intro hs hinv
  obtain ⟨honward, hQ⟩ := hp hs
  obtain ⟨hinv', hpast, hR⟩ :=
    hf (p s).1 (p s).2 honward hQ (honward.regular hs) (hI honward hinv)
  exact ⟨hinv', honward.toPast.trans hpast, hR⟩

theorem TriesWith.behind {p : Parser α} {f : α → Parser β} (hI : Lasting I) (hp : Tries s p Q)
    (hf : ∀ a u, Onward s u → Q a u → TriesWith I u (f a) R) : TriesWith I s (p >>= f) R := by
  unfold TriesWith
  rw [ExceptT.run_bind]
  refine GoesWith.behind hI hp fun r u honward hr => ?_
  cases r with
  | ok a => exact hf a u honward hr
  | error fault => exact .of_goes hI (Goes.pure hr)

/-- A step in front that only looks at the state. -/
theorem TriesWith.look {p : Step α} {a : α} {f : α → Parser β} (hp : p s = (a, s))
    (hf : TriesWith I s (f a) R) : TriesWith I s (liftM p >>= f) R := by
  have heq : (liftM p >>= f : Parser β).run = p >>= fun a => (f a).run := rfl
  unfold TriesWith GoesWith
  rw [heq, step_bind hp]
  exact hf

theorem TriesWith.given {a : α} {f : α → Parser β} (hf : TriesWith I s (f a) R) :
    TriesWith I s (Pure.pure a >>= f) R := by
  rw [pure_bind]
  exact hf

/-- Behind a step. -/
theorem GoesWith.bind {p : Step α} {f : α → Step β} (hI : Lasting I) (hp : GoesWith I s p Q)
    (hf : ∀ a u, I u → Past s u → Q a u → Goes u (f a) R) : GoesWith I s (p >>= f) R := by
  intro hs hinv
  obtain ⟨hinv', hpast, hQ⟩ := hp hs hinv
  obtain ⟨honward, hR⟩ := hf (p s).1 (p s).2 hinv' hpast hQ (hpast.regular hs)
  exact ⟨hI honward hinv', hpast.trans honward.toPast, hR⟩

theorem TriesWith.after {p : Step α} {f : α → Parser β} (hI : Lasting I) (hp : GoesWith I s p Q)
    (hf : ∀ a u, I u → Past s u → Q a u → Tries u (f a) R) :
    TriesWith I s (liftM p >>= f) R := by
  have heq : (liftM p >>= f : Parser β).run = p >>= fun a => (f a).run := rfl
  unfold TriesWith
  rw [heq]
  exact hp.bind hI hf

/-- A name is read in front of a step that is told of since the state in front of the name. -/
theorem Tries.since {o : State} {p : Parser α} {f : α → Parser β} (hp : Tries s p Q)
    (hf : ∀ a u, Onward s u → Q a u → TriesWith (Since o) u (f a) R) :
    TriesWith (Since o) s (p >>= f) R :=
  .behind (lasting_since o) hp hf

end With

/-! ## 4. Repetition -/

/-- A run of a loop, however many turns it takes: each of them goes on, and each but the last consumes
    something. -/
inductive Runs (turn : α → Step (Turn α β)) : α → State → β → State → Prop where
  | done {a : α} {b : β} {s u : State} (last : turn a s = (.done b, u)) (past : Past s u) :
      Runs turn a s b u
  | again {a a' : α} {b : β} {s m u : State} (first : turn a s = (.again a', m)) (past : Past s m)
      (consumes : Consumes s m) (rest : Runs turn a' m b u) : Runs turn a s b u

section Loops

variable {turn : α → Step (Turn α β)} {a : α} {J : α → State → Prop} {Q : β → State → Prop}

theorem Runs.past {b : β} (h : Runs turn a s b u) : Past s u := by
  induction h with
  | done _ past => exact past
  | again _ past _ _ ih => exact past.trans ih

/-- What a run of a loop ends with. -/
theorem Runs.owes {b : β} (h : Runs turn a s b u) (hs : s.Regular) (hstart : J a s)
    (hturn : ∀ a u, Past s u → J a u → Proceeds u (turn a) (Turns J Q u)) : Q b u := by
  induction h with
  | @done a b s u last _ =>
    obtain ⟨-, -, hQ⟩ := hturn a s (.refl s) hstart hs trivial
    rwa [last] at hQ
  | @again a a' b s m u first past _ _ ih =>
    obtain ⟨-, -, hJ⟩ := hturn a s (.refl s) hstart hs trivial
    rw [first] at hJ
    exact ih (past.regular hs) hJ.1 fun a u hu => hturn a u (past.trans hu)

/-- **A loop whose turns consume something is never given up**: it is a run of its turns. -/
theorem runs_loop (giveUp : α → β) (hs : s.Regular) (hstart : J a s)
    (hturn : ∀ a u, Past s u → J a u → Proceeds u (turn a) (Turns J Q u)) :
    Runs turn a s (loop turn giveUp a s).1 (loop turn giveUp a s).2 := by
  -- by induction on the number of turns that are allowed: it stays ahead of the size of the state
  have hturns (n : Nat) : ∀ a u, Past s u → J a u → u.size < n →
      Runs turn a u (loopUpTo turn giveUp n a u).1 (loopUpTo turn giveUp n a u).2 := by
    induction n with
    | zero => exact fun a u _ _ hsize => absurd hsize (Nat.not_lt_zero _)
    | succ n ih =>
      intro a u hu hJ hsize
      obtain ⟨-, hpast, hend⟩ := hturn a u hu hJ (hu.regular hs) trivial
      rcases hr : turn a u with ⟨outcome, v⟩
      rw [hr] at hpast hend
      cases outcome with
      | done b =>
        rw [loopUpTo_done hr]
        exact .done hr hpast
      | again a' =>
        obtain ⟨hJ', hconsumes⟩ := hend
        have hlt : v.size < u.size := hconsumes.size_lt
        rw [loopUpTo_again hr]
        exact .again hr hpast hconsumes (ih a' v (hu.trans hpast) hJ' (by omega))
  exact hturns _ a s (.refl s) hstart (Nat.lt_succ_self _)

/-- Turns that lead onward go on leading onward of the state in front of the loop. -/
theorem Goes.turns (hu : Onward s u) (h : Goes u (turn a) (Turns J Q u)) : Proceeds u (turn a)
    (Turns (fun a v => Onward s v ∧ J a v) (fun b v => Onward s v ∧ Q b v) u) := by
  refine Goes.proceeds (h.mono fun outcome v hv hend => ?_)
  cases outcome with
  | again a' => exact ⟨⟨hu.trans hv, hend.1⟩, hend.2⟩
  | done b => exact ⟨hu.trans hv, hend⟩

/-- **A loop whose turns consume something** ends with what its last turn ends with. -/
theorem Goes.loop (turn : α → Step (Turn α β)) {giveUp : α → β} (hstart : J a s)
    (hturn : ∀ a u, Onward s u → J a u → Goes u (turn a) (Turns J Q u)) :
    Goes s (Parse.loop turn giveUp a) Q := by
  intro hs
  have hproceeds (a : α) (u : State) (_ : Past s u) (hJ : Onward s u ∧ J a u) :=
    Goes.turns hJ.1 (hturn a u hJ.1 hJ.2)
  have hruns := runs_loop giveUp hs ⟨.refl s, hstart⟩ hproceeds
  exact hruns.owes hs ⟨.refl s, hstart⟩ hproceeds

end Loops

/-- A turn that may fail as a turn of a loop that ends with its fault. -/
def tryTurn (body : α → Parser (Turn α β)) (a : α) : Step (Turn α (Except Fault β)) := do
  match ← (body a).run with
  | .ok (.again a) => return .again a
  | .ok (.done b) => return .done (.ok b)
  | .error f => return .done (.error f)

/-- Whatever lasts over a turn lasts over it as a turn of such a loop. -/
theorem goesWith_tryTurn {I : State → Prop} (hI : Lasting I) {body : α → Parser (Turn α β)} {a : α}
    {J : α → State → Prop} {Q : β → State → Prop}
    (hbody : TriesWith I s (body a) (Turns J Q s)) :
    GoesWith I s (tryTurn body a) (Turns J (Owes Q) s) := by
  refine GoesWith.bind hI hbody fun r v _ _ hr => ?_
  cases r with
  | ok turn =>
    cases turn with
    | again a' => exact fun hv => ⟨.refl v, hr⟩
    | done b => exact Goes.pure hr
  | error fault => exact Goes.pure hr

/-- A turn that need not lead onward. -/
theorem proceeds_tryTurn {body : α → Parser (Turn α β)} {a : α} {J : α → State → Prop}
    {Q : β → State → Prop} (hbody : Proceeds s (body a).run (Owes (Turns J Q s))) :
    Proceeds s (tryTurn body a) (Turns J (Owes Q) s) :=
  goesWith_tryTurn lasting_true hbody

theorem goes_tryTurn {body : α → Parser (Turn α β)} {a : α} {J : α → State → Prop}
    {Q : β → State → Prop} (hbody : Tries s (body a) (Turns J Q s)) :
    Goes s (tryTurn body a) (Turns J (Owes Q) s) :=
  .of_since (goesWith_tryTurn (lasting_since s) (.of_goes (lasting_since s) hbody))

/-- **A loop whose turns may fail** ends with what its last turn ends with, or with its fault. -/
theorem Tries.tryLoop (body : α → Parser (Turn α β)) {a : α} {J : α → State → Prop}
    {Q : β → State → Prop} (hstart : J a s)
    (hbody : ∀ a u, Onward s u → J a u → Tries u (body a) (Turns J Q u)) :
    Tries s (Parse.tryLoop body a) Q :=
  Goes.loop (tryTurn body) hstart fun a u hpast hJ => goes_tryTurn (hbody a u hpast hJ)

/-! ## 5. Reading -/

theorem goes_advance : Goes s advance fun t u => t = s.current ∧ u = s.advance.2 :=
  fun _ => ⟨Onward.advance s, s.advance_fst, rfl⟩

/-- A word that comes next is read. -/
theorem goes_word (hk : s.current.kind.IsWord) :
    Goes s advance fun t u => t = s.current ∧ Opens s t u := by
  refine goes_advance.mono fun t u _ h => ?_
  obtain ⟨rfl, rfl⟩ := h
  exact ⟨rfl, rfl, hk, .refl _⟩

theorem goes_skip : Goes s (discard advance) fun _ u => u = s.advance.2 :=
  Goes.dropped (goes_advance.mono fun _ _ _ h => h.2)

theorem tries_skip : Tries s (discard (liftM advance : Parser Token)) fun _ u => u = s.advance.2 :=
  Tries.dropped (Tries.step (goes_advance.mono fun _ _ _ h => h.2))

/-- A word that comes next is read over. -/
theorem tries_skipWord (hk : s.current.kind.IsWord) :
    Tries s (discard (liftM advance : Parser Token)) fun _ u => Opens s s.current u :=
  tries_skip.mono fun _ u _ h => by
    subst h
    exact ⟨rfl, hk, .refl _⟩

/-- A token of a kind is read if it comes next, and if it does not nothing happens. -/
theorem goes_consume (kind : Kind) : Goes s (consume kind) fun found u =>
    found = true ∧ s.current.kind = kind ∧ u = s.advance.2 ∨
      found = false ∧ s.current.kind ≠ kind ∧ u = s := by
  refine Goes.look (sees_eq s kind) ?_
  split
  · rename_i hsees
    refine goes_skip.bind fun _ u _ hu => ?_
    exact Goes.pure (Or.inl ⟨rfl, eq_of_beq hsees, hu⟩)
  · rename_i hno
    exact Goes.pure (Or.inr ⟨rfl, fun hk => hno (beq_iff_eq.mpr hk), rfl⟩)

theorem tries_consumed (kind : Kind) :
    Tries s (discard (liftM (consume kind) : Parser Bool)) fun _ _ => True :=
  Tries.dropped (Tries.step ((goes_consume kind).mono fun _ _ _ _ => trivial))

theorem tries_failHere {cause : Cause} {Q : α → State → Prop} (hcause : cause.severity = .error) :
    Tries s (failHere cause) Q :=
  Tries.look (current_eq s) (Tries.throw hcause)

theorem tries_expect (kind : Kind) : Tries s (expect kind) fun t u =>
    s.current.kind = kind ∧ t = s.current ∧ u = s.advance.2 := by
  refine Tries.look (sees_eq s kind) ?_
  split
  · rename_i hsees
    exact Tries.step (goes_advance.mono fun _ _ _ h => ⟨eq_of_beq hsees, h⟩)
  · exact Tries.look (current_eq s) (tries_failHere rfl)

theorem tries_expected (kind : Kind) : Tries s (discard (expect kind)) fun _ _ => True :=
  Tries.dropped ((tries_expect kind).mono fun _ _ _ _ => trivial)

theorem tries_nextIdent : Tries s expectIdent fun t u =>
    s.current.kind = .ident ∧ t = s.current ∧ u = s.advance.2 := by
  refine Tries.look (sees_eq s .ident) ?_
  split
  · rename_i hsees
    exact Tries.step (goes_advance.mono fun _ _ _ h => ⟨eq_of_beq hsees, h⟩)
  · exact tries_failHere rfl

theorem tries_expectIdent : Tries s expectIdent fun t u => t.kind = .ident ∧ Opens s t u := by
  refine tries_nextIdent.mono fun t u _ h => ?_
  obtain ⟨hk, rfl, rfl⟩ := h
  have hword : s.current.kind.IsWord := by
    rw [hk]
    decide
  exact ⟨hk, rfl, hword, .refl _⟩

/-- A separator is read, or the file ends. -/
theorem tries_expectSeparator : Tries s expectSeparator fun _ u =>
    s.current.kind.isSeparator = true ∧ u = s.advance.2 ∨
      s.current.kind = .endOfFile ∧ u = s := by
  refine Tries.look (currentKind_eq s) ?_
  split
  · rename_i hk
    exact tries_skip.mono fun _ _ _ hu => Or.inl ⟨by rw [hk]; rfl, hu⟩
  · rename_i hk
    exact tries_skip.mono fun _ _ _ hu => Or.inl ⟨by rw [hk]; rfl, hu⟩
  · rename_i hk
    exact Tries.pure (Or.inr ⟨hk, rfl⟩)
  · exact Tries.look (current_eq s) (tries_failHere rfl)

/-- Skips one more token of certain kinds. -/
def skipTurn (skipped : Kind → Bool) (_ : Unit) : Step (Turn Unit Unit) := do
  if skipped (← currentKind) then
    discard advance
    return .again ()
  else return .done ()

/-- Only tokens of certain kinds have been skipped. -/
structure Skips (skipped : Kind → Bool) (o s : State) : Prop where
  past : Past o s
  symbols : s.symbols = o.symbols
  read : ∀ read, o.rest.tokens = read ++ s.rest.tokens → ∀ t ∈ read, skipped t.kind = true

theorem Skips.refl (skipped : Kind → Bool) (s : State) : Skips skipped s s :=
  ⟨.refl s, rfl, fun read htokens => by
    rw [(Reads.refl s).eq htokens]
    exact List.forall_mem_nil _⟩

theorem goes_skipTurn {skipped : Kind → Bool} (hend : skipped .endOfFile = false)
    (h : Skips skipped u s) : Goes s (skipTurn skipped ()) (Turns (fun _ => Skips skipped u)
      (fun _ v => skipped v.current.kind = false ∧ Skips skipped u v) s) := by
  obtain ⟨hpast, hsymbols, hread⟩ := h
  refine Goes.look (currentKind_eq s) ?_
  split
  · rename_i hk
    have hne : s.current.kind ≠ .endOfFile := fun hkind => by
      rw [hkind, hend] at hk
      cases hk
    refine Goes.regular fun hs => ?_
    refine goes_skip.bind fun _ v hv hadvance => Goes.pure ⟨⟨hpast.trans hv, ?_, ?_⟩, ?_⟩
    · rw [hadvance, s.symbols_advance, hsymbols]
    · obtain ⟨before, hbefore⟩ := hpast.reads
      obtain ⟨more, hmore⟩ := hv.reads
      intro read htokens
      rw [(hbefore.trans hmore).eq htokens]
      refine List.forall_mem_append.mpr ⟨hread before hbefore.tokens, ?_⟩
      exact forall_mem_of_advance (P := (skipped · = true)) hk (hadvance ▸ hmore.tokens)
    · rw [hadvance]
      exact Consumes.advance hs hne
  · rename_i hk
    exact Goes.pure ⟨Bool.not_eq_true _ ▸ hk, hpast, hsymbols, hread⟩

/-- All tokens that are skipped are of certain kinds, and what comes next is not. -/
theorem goes_skipWhile (skipped : Kind → Bool) (hend : skipped .endOfFile = false) :
    Goes s (skipWhile skipped) fun _ u => skipped u.current.kind = false ∧ Skips skipped s u :=
  Goes.loop (skipTurn skipped) (J := fun _ => Skips skipped s) (.refl skipped s)
    fun _ _ _ h => goes_skipTurn hend h

/-- Empty lines are read over. -/
theorem goes_skipNewlines : Goes s skipNewlines fun _ u =>
    Gap s u ∧ u.current.kind ≠ .newline := by
  refine (goes_skipWhile (· == .newline) rfl).mono fun _ u hpast h => ?_
  obtain ⟨hnext, -, -, hread⟩ := h
  refine ⟨⟨hpast, fun _ read htokens t ht => ?_⟩, beq_eq_false_iff_ne.mp hnext⟩
  rw [eq_of_beq (hread read htokens t ht)]
  rfl

/-- Something is read unless the file ends. -/
theorem goes_synchronize : Goes s synchronize fun _ u =>
    s.current.kind ≠ .endOfFile → Consumes s u := by
  refine Goes.bind (goes_skipWhile _ rfl) fun _ u hpast _ => ?_
  refine Goes.look (sees_eq u .endOfFile) ?_
  split
  · rename_i hend
    refine Goes.pure fun hne => .of_current_ne hpast fun hsame => hne ?_
    rw [← hsame]
    exact eq_of_beq hend
  · rename_i hgoes
    have hk : u.current.kind ≠ .endOfFile := fun hk => hgoes (beq_iff_eq.mpr hk)
    refine Goes.regular fun hu => goes_skip.mono fun _ v _ hv _ => ?_
    rw [hv]
    exact .after hpast (.advance hu hk)

/-! ## 6. Recording -/

/-- An error is not clean. -/
theorem not_clean_report {f : Fault} (hf : f.cause.severity = .error) :
    ¬ State.Clean { s with diagnostics := s.diagnostics.push (.ofFault f) } := by
  intro hclean
  have hmem : Diagnostic.ofFault f ∈ (s.diagnostics.push (.ofFault f)).toList := by simp
  have hnone := hclean _ hmem
  rw [Diagnostic.isError, Diagnostic.ofFault, hf] at hnone
  cases hnone

theorem goes_reportFault (f : Fault) : Goes s (reportFault f) fun _ u =>
    Stays s u ∧ (f.cause.severity = .error → ¬ u.Clean) := by
  have hfaults : s.diagnostics.toList <+: (s.diagnostics.push (.ofFault f)).toList := by simp
  exact fun _ => ⟨.recorded hfaults, ⟨rfl, rfl, rfl, rfl⟩, not_clean_report⟩

theorem goes_report (cause : Cause) (span : Span) : Goes s (report cause span) fun _ u =>
    Stays s u ∧ (cause.severity = .error → ¬ u.Clean) :=
  goes_reportFault ⟨cause, span⟩

/-- A report leaves the table of symbols as it is. -/
theorem symbols_report (cause : Cause) (span : Span) :
    (report cause span s).2.symbols = s.symbols := rfl

theorem goes_begin : Goes s begin fun _ u => Stays s u ∧ u.begun = s.begun + 1 :=
  fun _ => ⟨.kept (Nat.le_succ _), ⟨rfl, rfl, rfl, rfl⟩, rfl⟩

theorem goes_noteRecovery (start : Outset) (f : Fault) :
    Goes s (noteRecovery start f) fun _ u =>
      u = { s with recoveries := s.recoveries.push (s.recovery start f) } :=
  fun _ => ⟨.kept (Nat.le_refl _), rfl⟩

theorem goes_recordRegion (kind : RegionKind) (span : Span) :
    Goes s (recordRegion kind span) fun _ u => Stays s u :=
  fun _ => ⟨.recorded (List.prefix_refl _), rfl, rfl, rfl, rfl⟩

/-! ## 7. Noting -/

/-- A change to the table of symbols. -/
theorem goes_trySymbols {f : SymbolTable → Bool × SymbolTable}
    (hf : s.symbols.Advances s.last.toList (f s.symbols).2) :
    Goes s (trySymbols f) fun _ u => Stays s u :=
  fun _ => ⟨.noted hf, rfl, rfl, rfl, rfl⟩

/-- A variable is noted at a later state, whatever there is. -/
theorem past_noteVariable (t : Token) : Past s (noteVariable t s).2 :=
  .noted (SymbolTable.follows_referenceOrCreate _ t _)

/-- A variable of which there is no equate, or which is there already, or whose name is a word of the
    language or a variable of the system. -/
theorem goes_noteVariable {t : Token}
    (h : s.symbols.contains .equate t.text = false ∨ s.symbols.contains .variable t.text = true ∨
      NamedApart s.last.toList t.folded) : Goes s (noteVariable t) fun _ u =>
    Stays s u ∧ (s.symbols.Whole → u.symbols.Refers t.span t.folded) :=
  fun _ => ⟨.noted (SymbolTable.advances_referenceVariable _ h), ⟨rfl, rfl, rfl, rfl⟩,
    fun hs => hs.sound.refers_referenceVariable t⟩

theorem goes_noteLabel (t : Token) : Goes s (noteLabel t) fun _ u => Stays s u :=
  fun _ => ⟨.noted (SymbolTable.advances_referenceOrCreate _ t rfl nofun), rfl, rfl, rfl, rfl⟩

theorem goes_noteCalled (t : Token) : Goes s (noteCalled t) fun _ u => Stays s u :=
  fun _ => ⟨.noted (SymbolTable.advances_referenceOrCreate _ t rfl nofun), rfl, rfl, rfl, rfl⟩

theorem goes_noteIfKnown (kind : SymbolKind) (t : Token) :
    Goes s (noteIfKnown kind t) fun _ u => Stays s u :=
  goes_trySymbols (SymbolTable.advances_reference? _ kind t)

/-- An equate is noted if there is one, and if there is none nothing happens. -/
theorem goes_noteEquate (t : Token) : Goes s (noteIfKnown .equate t) fun known u =>
    (known = true → s.symbols.Whole → u.symbols.Refers t.span t.folded) ∧
      (known = false → u.symbols.contains .equate t.text = false) := by
  intro hs
  obtain ⟨honward, -⟩ := goes_noteIfKnown .equate t hs
  refine ⟨honward, fun hknown hwhole => hwhole.sound.refers_reference? hknown, fun hno => ?_⟩
  -- nothing is noted without an equate
  have hrun : noteIfKnown .equate t s = ((s.symbols.reference? .equate t).1.isSome,
    { s with symbols := (s.symbols.reference? .equate t).2 }) := rfl
  rw [hrun] at hno ⊢
  cases hid : s.symbols.find? .equate t.text with
  | some id => simp [SymbolTable.reference?, hid] at hno
  | none => simp [SymbolTable.reference?, SymbolTable.contains, hid]

/-! ## 8. Lists -/

/-- Reads one more item if a comma comes next. -/
def commaTurn (item : Parser α) (items : Array α) : Parser (Turn (Array α) (Array α)) := do
  if ← consume .comma then return .again (items.push (← item)) else return .done items

section Lists

variable {item : Parser α} {P : α → State → State → Prop}
  (hitem : ∀ s, Tries s item fun a u => P a s u)
  (hwiden : ∀ {a o s u v}, Onward o s → P a s u → Onward u v → P a o v)

include hitem hwiden

theorem tries_commaTurn (items : Array α) (hpast : Onward u s) (hne : items.toList ≠ [])
    (hall : ∀ a ∈ items.toList, P a u s) : Tries s (commaTurn item items)
      (Turns (fun items v => Onward u v ∧ items.toList ≠ [] ∧ ∀ a ∈ items.toList, P a u v)
        (fun items v => items.toList ≠ [] ∧ ∀ a ∈ items.toList, P a u v) s) := by
  refine Tries.regular fun hs => Tries.after (goes_consume .comma) fun found w hw hfound => ?_
  rcases hfound with ⟨rfl, hk, rfl⟩ | ⟨rfl, -, rfl⟩
  · refine (hitem _).bind fun a x hx ha => Tries.pure ⟨⟨hpast.trans (hw.trans hx), ?_, ?_⟩, ?_⟩
    · simp
    · rw [Array.toList_push]
      refine List.forall_mem_append.mpr ⟨fun b hb => ?_, List.forall_mem_singleton.mpr ?_⟩
      · exact hwiden (.refl u) (hall b hb) (hw.trans hx)
      · exact hwiden (hpast.trans hw) ha (.refl x)
    · have hend : s.current.kind ≠ .endOfFile := by
        rw [hk]
        decide
      exact (Consumes.advance hs hend).before hx
  · exact Tries.pure ⟨hne, hall⟩

/-- Items between commas: each of them holds what an item holds, and there is at least one. -/
theorem tries_commaList :
    Tries s (commaList item) fun as u => as ≠ [] ∧ ∀ a ∈ as, P a s u := by
  refine (hitem s).bind fun first u hu hfirst => ?_
  refine Tries.bind (Q := fun items v => items.toList ≠ [] ∧ ∀ a ∈ items.toList, P a s v)
    (Tries.tryLoop (commaTurn item) ⟨hu, by simp, by simpa using hfirst⟩
      fun items v _ hJ => tries_commaTurn hitem hwiden items hJ.1 hJ.2.1 hJ.2.2)
    fun items v _ h => Tries.pure h

end Lists

end BasicCheck.Grammar
