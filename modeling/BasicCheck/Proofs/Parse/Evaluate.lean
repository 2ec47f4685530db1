import BasicCheck.Parse.State

/-!
# Running parsers

What a sequence of steps or parsers does once it is known what the first one does, what the steps do
that look at the next token or read it, and how loops go on from one turn to the next
(`turns_again`, `turns_done`, `turns_error`).
-/

namespace BasicCheck.Parse

variable {α β : Type} {s u : State} {a : α}

/-! ## 1. Sequences -/

theorem step_bind {p : Step α} {f : α → Step β} (hp : p s = (a, u)) : (p >>= f) s = f a u := by
  show f (p s).1 (p s).2 = _
  rw [hp]

theorem step_discard {p : Step α} (hp : p s = (a, u)) : discard p s = ((), u) := by
  show ((), (p s).2) = _
  rw [hp]

theorem run_bind {p : Parser α} {f : α → Parser β} (hp : p s = (.ok a, u)) :
    (p >>= f) s = f a u := by
  show ExceptT.bindCont f (p s).1 (p s).2 = _
  rw [hp]
  rfl

theorem run_bind_error {p : Parser α} {f : α → Parser β} {fault : Fault}
    (hp : p s = (.error fault, u)) : (p >>= f) s = (.error fault, u) := by
  show ExceptT.bindCont f (p s).1 (p s).2 = _
  rw [hp]
  rfl

/-- A step in front of a parser. -/
theorem run_after {p : Step α} {f : α → Parser β} (hp : p s = (a, u)) :
    (liftM p >>= f : Parser β) s = f a u := by
  show f (p s).1 (p s).2 = _
  rw [hp]

theorem run_get {f : State → Parser β} : ((get : Parser State) >>= f) s = f s s := rfl

theorem run_lift {p : Step α} (hp : p s = (a, u)) : (liftM p : Parser α) s = (.ok a, u) := by
  show (Except.ok (p s).1, (p s).2) = _
  rw [hp]

theorem run_discard {p : Parser α} (hp : p s = (.ok a, u)) : discard p s = (.ok (), u) := by
  unfold discard
  rw [map_const]
  show (Function.const α PUnit.unit <$> p) s = _
  rw [map_eq_pure_bind]
  exact run_bind hp

theorem run_map {p : Parser α} {f : α → β} (hp : p s = (.ok a, u)) :
    (f <$> p) s = (.ok (f a), u) := by
  rw [map_eq_pure_bind]
  exact run_bind hp

theorem run_map_error {p : Parser α} {f : α → β} {fault : Fault} (hp : p s = (.error fault, u)) :
    (f <$> p) s = (.error fault, u) := by
  rw [map_eq_pure_bind]
  exact run_bind_error hp

/-! ## 2. Looking and reading -/

section Looking

variable (s : State)

theorem current_eq : current s = (s.current, s) := rfl

theorem currentKind_eq : currentKind s = (s.current.kind, s) := rfl

theorem nextKind_eq : nextKind s = ((s.next?.map (·.kind)).getD .endOfFile, s) := rfl

theorem sees_eq (kind : Kind) : sees kind s = (s.current.kind == kind, s) := rfl

theorem outset_eq : outset s = (⟨s.rest.tokens, s.begun⟩, s) := rfl

theorem spanFrom_eq (start : Span) : spanFrom start s = (start.join s.previous.span, s) := rfl

end Looking

theorem consume_of_eq {kind : Kind} {t : Token} (h : s.current.kind = kind)
    (hadvance : s.advance = (t, u)) : consume kind s = (true, u) := by
  unfold consume
  rw [step_bind (sees_eq s kind), h, beq_self_eq_true, if_pos rfl]
  exact step_bind (step_discard hadvance)

theorem consume_of_ne {kind : Kind} (h : s.current.kind ≠ kind) : consume kind s = (false, s) := by
  unfold consume
  rw [step_bind (sees_eq s kind), beq_eq_false_iff_ne.mpr h]
  rfl

theorem expect_of_eq {kind : Kind} {t : Token} (h : s.current.kind = kind)
    (hadvance : s.advance = (t, u)) : expect kind s = (.ok t, u) := by
  unfold expect
  rw [run_after (sees_eq s kind), h, beq_self_eq_true, if_pos rfl]
  exact run_lift hadvance

/-! ## 3. Loops -/

/-- At most a given number of turns of a loop whose turns may fail. -/
def turns (body : α → Parser (Turn α β)) (n : Nat) (a : α) : Parser β :=
  ExceptT.mk <| loopUpTo
    (fun a => do
      match ← (body a).run with
      | .ok (.again a) => return .again a
      | .ok (.done b) => return .done (.ok b)
      | .error f => return .done (.error f))
    (fun _ => .error standstill) n a

variable {body : α → Parser (Turn α β)} {n : Nat}

theorem tryLoop_eq : tryLoop body a s = turns body (s.size + 1) a s := rfl

theorem turns_again {a' : α} (h : body a s = (.ok (.again a'), u)) :
    turns body (n + 1) a s = turns body n a' u := by
  refine (step_bind (a := Turn.again a') (u := u) ?_).trans rfl
  exact (step_bind h).trans rfl

theorem turns_done {b : β} (h : body a s = (.ok (.done b), u)) :
    turns body (n + 1) a s = (.ok b, u) := by
  refine (step_bind (a := Turn.done (.ok b)) (u := u) ?_).trans rfl
  exact (step_bind h).trans rfl

theorem turns_error {fault : Fault} (h : body a s = (.error fault, u)) :
    turns body (n + 1) a s = (.error fault, u) := by
  refine (step_bind (a := Turn.done (.error fault)) (u := u) ?_).trans rfl
  exact (step_bind h).trans rfl

section Steps

variable {turn : α → Step (Turn α β)} {giveUp : α → β} {n : Nat}

theorem loop_eq : loop turn giveUp a s = loopUpTo turn giveUp (s.size + 1) a s := rfl

theorem loopUpTo_again {a' : α} (h : turn a s = (.again a', u)) :
    loopUpTo turn giveUp (n + 1) a s = loopUpTo turn giveUp n a' u :=
  step_bind h

theorem loopUpTo_done {b : β} (h : turn a s = (.done b, u)) :
    loopUpTo turn giveUp (n + 1) a s = (b, u) :=
  step_bind h

end Steps

/-- Where no empty line follows none is skipped. -/
theorem skipNewlines_eq_self (hk : s.current.kind ≠ .newline) : skipNewlines s = ((), s) := by
  refine loop_eq.trans (loopUpTo_done ?_)
  refine (step_bind (currentKind_eq s)).trans ?_
  rw [if_neg (by simpa using hk)]
  rfl

/-! ## 4. Nesting -/

theorem nestUpTo_succ (layer : Parser α → Parser α) (n : Nat) :
    nestUpTo layer (n + 1) = layer (nestUpTo layer n) := rfl

theorem nest_eq (layer : Parser α → Parser α) : nest layer s = nestUpTo layer (s.size + 1) s := rfl

end BasicCheck.Parse
