import BasicCheck.Proofs.Parse.Evaluate
import BasicCheck.Proofs.Parse.Undo

/-!
# What a parser leads to

A parser is judged where it stands: behind a run (`At`). It leads to `Q` if it goes on with that run
and what it gives satisfies `Q`, which may speak of the events that are new (`At.Leads`). A parser
that may fail goes on with the run in any case, but owes `Q` only if it succeeds, and an error if it
fails (`At.Tries`). The rules follow the way in which parsers are put together: **`At.Tries.bind`**
for sequences, `At.Leads.loop` and `At.Tries.tryLoop` for repetitions, `of_layers` for nesting.
-/

namespace BasicCheck.Parse

/-! ## 1. Levels -/

/-- Which part of the grammar reads. -/
inductive Level where
  /-- Everything but labels and loops. -/
  | plain
  /-- Everything but labels. -/
  | silent
  /-- Anything. -/
  | statement

/-- What can be undone and declares no label. -/
def Event.IsPlain (e : Event) : Prop := e.IsUndone ∧ e.declared? = none

theorem Event.isPlain_of_isGivenUp {e : Event} (h : e.isGivenUp) : e.IsPlain := by
  cases e with
  | givesUp attempt => exact ⟨trivial, rfl⟩
  | _ => cases h

/-- The events of a level. -/
def Level.Allows : Level → Event → Prop
  | plain, e => e.IsPlain
  | silent, e => e.declared? = none
  | statement, _ => True

theorem Level.allows_of_isPlain {e : Event} (h : e.IsPlain) : ∀ level : Level, level.Allows e
  | plain => h
  | silent => h.2
  | statement => trivial

/-! ## 2. Judgements -/

/-- A state behind a run from a sound state. -/
structure At (o : State) (trace : List Event) (s : State) : Prop where
  sound : o.Sound
  run : Run o trace s

variable {o s : State} {trace : List Event} {level : Level} {α β : Type}

/-- A step goes on with the run and ends in `Q`. -/
def At.Leads (_ : At o trace s) (level : Level) (p : Step α) (Q : α → List Event → Prop) : Prop :=
  ∃ more, At o (trace ++ more) (p s).2 ∧ (∀ e ∈ more, level.Allows e) ∧ Q (p s).1 more

/-- What a parser owes: `Q` if it succeeds, else an error. -/
def Owes (Q : α → List Event → Prop) : Except Fault α → List Event → Prop
  | .ok a, more => Q a more
  | .error f, _ => f.cause.severity = .error

theorem Owes.mono {Q R : α → List Event → Prop} {r : Except Fault α} {more : List Event}
    (h : Owes Q r more) (hQ : ∀ a, Q a more → R a more) : Owes R r more := by
  cases r with
  | ok a => exact hQ a h
  | error f => exact h

/-- A parser goes on with the run, and ends in `Q` if it succeeds. -/
def At.Tries (h : At o trace s) (level : Level) (p : Parser α) (Q : α → List Event → Prop) : Prop :=
  h.Leads level p.run (Owes Q)

/-- What a turn of a loop owes: the invariant if the loop goes on, else what the loop owes. -/
def Turn.Keeps (I : α → List Event → Prop) (Q : β → List Event → Prop) :
    Turn α β → List Event → Prop
  | .again a, trace => I a trace
  | .done b, trace => Q b trace

@[simp] theorem Turn.keeps_again {I : α → List Event → Prop} {Q : β → List Event → Prop} {a : α}
    {trace : List Event} : (Turn.again a : Turn α β).Keeps I Q trace ↔ I a trace := Iff.rfl

@[simp] theorem Turn.keeps_done {I : α → List Event → Prop} {Q : β → List Event → Prop} {b : β}
    {trace : List Event} : (Turn.done b : Turn α β).Keeps I Q trace ↔ Q b trace := Iff.rfl

/-- Wherever a parser stands, it goes on with the run and ends in `Q` if it succeeds. -/
def Gives (level : Level) (p : Parser α) (Q : α → List Event → Prop) : Prop :=
  ∀ ⦃o : State⦄ ⦃trace : List Event⦄ ⦃s : State⦄ (h : At o trace s), h.Tries level p Q

namespace At

variable {h : At o trace s}

/-! ## 3. Sequences of steps -/

theorem Leads.mono {p : Step α} {Q R : α → List Event → Prop} (hp : h.Leads level p Q)
    (hQ : ∀ a more, Q a more → R a more) : h.Leads level p R := by
  obtain ⟨more, hmore, hallowed, hq⟩ := hp
  exact ⟨more, hmore, hallowed, hQ _ _ hq⟩

theorem Leads.pure {a : α} {Q : α → List Event → Prop} (hQ : Q a []) :
    h.Leads level (Pure.pure a) Q :=
  ⟨[], by rwa [List.append_nil], fun _ he => absurd he List.not_mem_nil, hQ⟩

/-- Whatever is plain may be done everywhere, and it declares no label. -/
theorem Leads.plain {p : Step α} {Q : α → List Event → Prop} (hp : h.Leads .plain p Q) :
    h.Leads level p fun a more => Q a more ∧ declaredBy more = [] := by
  obtain ⟨more, hmore, hallowed, hq⟩ := hp
  exact ⟨more, hmore, fun e he => level.allows_of_isPlain (hallowed e he), hq,
    List.filterMap_eq_nil_iff.mpr fun e he => (hallowed e he).2⟩

/-- What declares no label may be done within a statement. -/
theorem Leads.silent {p : Step α} {Q : α → List Event → Prop} (hp : h.Leads .silent p Q) :
    h.Leads .statement p fun a more => Q a more ∧ declaredBy more = [] := by
  obtain ⟨more, hmore, hallowed, hq⟩ := hp
  exact ⟨more, hmore, fun _ _ => trivial, hq, List.filterMap_eq_nil_iff.mpr hallowed⟩

theorem Leads.dropped {p : Step α} {Q : List Event → Prop}
    (hp : h.Leads level p fun _ more => Q more) : h.Leads level (discard p) fun _ more => Q more :=
  hp

/-- A step whose run is known. -/
theorem Leads.of_run {p : Step α} {Q : α → List Event → Prop} {a : α} {u : State}
    {more : List Event} (hp : p s = (a, u)) (k : At o (trace ++ more) u)
    (hallowed : ∀ e ∈ more, level.Allows e) (hQ : Q a more) : h.Leads level p Q := by
  refine ⟨more, ?_, hallowed, ?_⟩ <;> rwa [hp]

/-- A step whose run is known in front of another step. -/
theorem Leads.of_run_bind {p : Step α} {f : α → Step β} {R : β → List Event → Prop} {a : α}
    {u : State} {more : List Event} (hp : p s = (a, u)) (k : At o (trace ++ more) u)
    (hallowed : ∀ e ∈ more, level.Allows e)
    (hf : k.Leads level (f a) fun b later => R b (more ++ later)) :
    h.Leads level (p >>= f) R := by
  obtain ⟨later, hlater, hallowed', hr⟩ := hf
  refine Leads.of_run (step_bind hp) ?_ (fun e he => ?_) hr
  · rw [← List.append_assoc]
    exact hlater
  · exact (List.mem_append.mp he).elim (hallowed e) (hallowed' e)

/-- A sequence of steps does the events of the first, then those of the second. -/
theorem Leads.bind {p : Step α} {f : α → Step β} {Q : α → List Event → Prop}
    {R : β → List Event → Prop} (hp : h.Leads level p Q)
    (hf : ∀ (a : α) (more : List Event) (u : State) (k : At o (trace ++ more) u), Q a more →
      k.Leads level (f a) fun b later => R b (more ++ later)) :
    h.Leads level (p >>= f) R := by
  obtain ⟨more, hmore, hallowed, hq⟩ := hp
  exact Leads.of_run_bind rfl hmore hallowed (hf _ _ _ hmore hq)

theorem Leads.given {a : α} {f : α → Step β} {R : β → List Event → Prop}
    (hf : h.Leads level (f a) R) : h.Leads level (Pure.pure a >>= f) R := hf

/-- A step that only looks at the state. -/
theorem Leads.look {p : Step α} {f : α → Step β} {Q : β → List Event → Prop} {a : α}
    (hp : p s = (a, s)) (hf : h.Leads level (f a) Q) : h.Leads level (p >>= f) Q := by
  refine Leads.of_run_bind hp (by rwa [List.append_nil]) (fun e he => absurd he List.not_mem_nil) ?_
  simpa only [Leads, List.append_nil, List.nil_append] using hf

/-! ## 4. Sequences of parsers -/

theorem Tries.mono {p : Parser α} {Q R : α → List Event → Prop} (hp : h.Tries level p Q)
    (hQ : ∀ a more, Q a more → R a more) : h.Tries level p R :=
  Leads.mono hp fun _ more hq => hq.mono fun a => hQ a more

theorem Tries.plain {p : Parser α} {Q : α → List Event → Prop} (hp : h.Tries .plain p Q) :
    h.Tries level p fun a more => Q a more ∧ declaredBy more = [] :=
  Leads.mono (Leads.plain hp) fun _ _ hq => hq.1.mono fun _ ha => ⟨ha, hq.2⟩

theorem Tries.pure {a : α} {Q : α → List Event → Prop} (hQ : Q a []) :
    h.Tries level (Pure.pure a) Q :=
  Leads.pure hQ

theorem Tries.throw {f : Fault} {Q : α → List Event → Prop} (hf : f.cause.severity = .error) :
    h.Tries level (throw f) Q :=
  Leads.pure hf

/-- **A sequence of parsers** does the events of the first, then those of the second. -/
theorem Tries.bind {p : Parser α} {f : α → Parser β} {Q : α → List Event → Prop}
    {R : β → List Event → Prop} (hp : h.Tries level p Q)
    (hf : ∀ (a : α) (more : List Event) (u : State) (k : At o (trace ++ more) u), Q a more →
      k.Tries level (f a) fun b later => R b (more ++ later)) :
    h.Tries level (p >>= f) R := by
  unfold Tries
  rw [ExceptT.run_bind]
  refine Leads.bind hp fun r more u k hr => ?_
  cases r with
  | ok a =>
    refine Leads.mono (hf a more u k hr) fun r later hq => ?_
    cases r with
    | ok b => exact hq
    | error fault => exact hq
  | error fault => exact Leads.pure hr

theorem Tries.given {a : α} {f : α → Parser β} {R : β → List Event → Prop}
    (hf : h.Tries level (f a) R) : h.Tries level (Pure.pure a >>= f) R := by
  rw [pure_bind]
  exact hf

/-- Nothing happens behind a parser that always fails. -/
theorem Tries.fails {p : Parser α} {f : α → Parser β} {R : β → List Event → Prop}
    (hp : h.Tries level p fun _ _ => False) : h.Tries level (p >>= f) R :=
  hp.bind fun _ _ _ _ hfalse => hfalse.elim

/-- A step as a parser. -/
theorem Tries.step {p : Step α} {Q : α → List Event → Prop} (hp : h.Leads level p Q) :
    h.Tries level (liftM p) Q := by
  obtain ⟨more, hmore, hallowed, hq⟩ := hp
  exact ⟨more, hmore, hallowed, hq⟩

/-- A step in front of a parser. -/
theorem Tries.after {p : Step α} {f : α → Parser β} {Q : α → List Event → Prop}
    {R : β → List Event → Prop} (hp : h.Leads level p Q)
    (hf : ∀ (a : α) (more : List Event) (u : State) (k : At o (trace ++ more) u), Q a more →
      k.Tries level (f a) fun b later => R b (more ++ later)) :
    h.Tries level (liftM p >>= f) R :=
  (Tries.step hp).bind hf

/-- A step in front of a parser that only looks at the state. -/
theorem Tries.look {p : Step α} {f : α → Parser β} {Q : β → List Event → Prop} {a : α}
    (hp : p s = (a, s)) (hf : h.Tries level (f a) Q) : h.Tries level (liftM p >>= f) Q := by
  unfold Tries
  have heq : (liftM p >>= f : Parser β).run = p >>= fun a => (f a).run := rfl
  rw [heq]
  exact Leads.look hp hf

theorem Tries.get {f : State → Parser β} {Q : β → List Event → Prop}
    (hf : h.Tries level (f s) Q) : h.Tries level (MonadState.get >>= f) Q :=
  Tries.look (p := MonadState.get) rfl hf

theorem Tries.map {p : Parser α} {f : α → β} {Q : β → List Event → Prop}
    (hp : h.Tries level p fun a more => Q (f a) more) : h.Tries level (f <$> p) Q := by
  rw [map_eq_pure_bind]
  refine hp.bind fun a more u k hq => Tries.pure ?_
  rwa [List.append_nil]

theorem Tries.dropped {p : Parser α} {Q : List Event → Prop}
    (hp : h.Tries level p fun _ more => Q more) : h.Tries level (discard p) fun _ more => Q more := by
  unfold discard
  rw [map_const]
  exact Tries.map hp

/-! ## 5. Repetition -/

/-- **A loop keeps what every turn keeps.** The invariant speaks of the events since the loop began;
    one that is given up ends with what the invariant gives. -/
theorem Leads.loop {body : α → Step (Turn α β)} {giveUp : α → β} {a : α}
    {I : α → List Event → Prop} {Q : β → List Event → Prop} (hstart : I a [])
    (hbody : ∀ (a : α) (done : List Event) (u : State) (k : At o (trace ++ done) u), I a done →
      k.Leads level (body a) fun turn more => turn.Keeps I Q (done ++ more))
    (hgiveUp : ∀ (a : α) (done : List Event), I a done → Q (giveUp a) done) :
    h.Leads level (loop body giveUp a) Q := by
  have hturns (n : Nat) : ∀ (a : α) (done : List Event) (u : State) (k : At o (trace ++ done) u),
      I a done → k.Leads level (loopUpTo body giveUp n a) fun b more => Q b (done ++ more) := by
    induction n with
    | zero =>
      intro a done u k hI
      refine Leads.pure ?_
      rw [List.append_nil]
      exact hgiveUp a done hI
    | succ n ih =>
      intro a done u k hI
      refine (hbody a done u k hI).bind fun turn more u' k' hturn => ?_
      rw [List.append_assoc] at k'
      cases turn with
      | again a' => simpa only [At.Leads, List.append_assoc] using ih a' (done ++ more) u' k' hturn
      | done b => exact Leads.pure (by rwa [List.append_nil])
  refine Leads.look (p := MonadState.get) rfl ?_
  have hall := hturns (s.size + 1) a [] s (by rwa [List.append_nil]) hstart
  simpa only [At.Leads, List.append_nil, List.nil_append] using hall

/-- **A loop whose turns may fail keeps what every turn keeps.** -/
theorem Tries.tryLoop {body : α → Parser (Turn α β)} {a : α} {I : α → List Event → Prop}
    {Q : β → List Event → Prop} (hstart : I a [])
    (hbody : ∀ (a : α) (done : List Event) (u : State) (k : At o (trace ++ done) u), I a done →
      k.Tries level (body a) fun turn more => turn.Keeps I Q (done ++ more)) :
    h.Tries level (tryLoop body a) Q := by
  refine Leads.loop (I := I) hstart (fun a done u k hI => ?_) fun a done _ => rfl
  refine Leads.bind (hbody a done u k hI) fun r more u' k' hr => ?_
  cases r with
  | ok turn =>
    cases turn with
    | again a' => exact Leads.pure (by rwa [List.append_nil])
    | done b => exact Leads.pure (by rwa [List.append_nil])
  | error fault => exact Leads.pure hr

end At

/-- **A parser that ends in `Q` wherever it stands** does so by a run of its own. -/
theorem Gives.alone {p : Parser α} {Q : α → List Event → Prop} (hp : Gives level p Q)
    (h : At o trace s) : h.Tries level p fun a more => Q a more ∧ ∃ u, Run s more u := by
  obtain ⟨more, hmore, hallowed, hq⟩ := hp (⟨h.run.sound h.sound, .start⟩ : At s [] s)
  exact ⟨more, ⟨h.sound, h.run.append hmore.run⟩, hallowed, hq.mono fun _ ha => ⟨ha, _, hmore.run⟩⟩

/-- A parser that contains itself is as good as its layers are over parsers that are. -/
theorem of_layers (Good : Parser α → Prop) (layer : Parser α → Parser α)
    (hthrow : Good (throw standstill)) (hlayer : ∀ p, Good p → Good (layer p)) (n : Nat) :
    Good (nestUpTo layer n) := by
  induction n with
  | zero => exact hthrow
  | succ n ih => exact hlayer _ ih

end BasicCheck.Parse
