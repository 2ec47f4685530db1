import BasicCheck.Proofs.Parse.Steps

/-!
# What is done between two states

A stretch tells which tokens are read on the way from one state to a later one, which places are
noted in the table of symbols and which faults are recorded (`Stretch`, `Since`). Parsers are judged
by stretches: whatever was done before, if it satisfies `I`, then together with what a step does it
satisfies `Q` (`Does`); a parser that may fail owes this only if it succeeds, and an error if it
fails (`Tries`). What is said of a step alone holds of it behind everything else
(**`Tries.frame`**), so that a property need be carried through the grammar only once.

The property that matters covers what is noted (`Covers`): as long as there is no error, every place
that is noted is among given ones, and these stand where tokens have been read.
-/

namespace BasicCheck

/-! ## 1. Mentions -/

/-- A place where a name is used, and the name that it is looked up by. -/
structure Mention where
  span : Span
  name : String
  deriving DecidableEq, Repr

def Token.mention (t : Token) : Mention := ⟨t.span, t.folded⟩

def Ident.mention (i : Ident) : Mention := ⟨i.span, i.folded⟩

/-- The places where a table has something noted. -/
def SymbolTable.mentions (t : SymbolTable) : List Mention :=
  t.references.toList.map (·.token.mention)

namespace SymbolTable

@[simp] theorem mentions_addReference (t : SymbolTable) (id : Nat) (token : Token) :
    (t.addReference id token).mentions = t.mentions ++ [token.mention] := by
  simp [mentions, addReference]

@[simp] theorem mentions_create (t : SymbolTable) (token : Token) (meaning : Meaning) :
    (t.create token meaning).mentions = t.mentions ++ [token.mention] := by
  simp [create, mentions, addReference]

/-- A change to a table that notes at most one token. -/
def NotesOnly (change : SymbolTable → SymbolTable) (token : Token) : Prop :=
  ∀ t, (change t).mentions = t.mentions ∨ (change t).mentions = t.mentions ++ [token.mention]

theorem notesOnly_declare (token : Token) (meaning : Meaning) :
    NotesOnly (fun t => (t.declare token meaning).2) token := by
  intro t
  by_cases h : t.contains meaning.kind token.text
  · simp [declare, h]
  · simp [declare, h]

theorem notesOnly_reference? (kind : SymbolKind) (token : Token) :
    NotesOnly (fun t => (t.reference? kind token).2) token := by
  intro t
  cases h : t.find? kind token.text <;> simp [reference?, h]

theorem notesOnly_referenceOrCreate (token : Token) (meaning : Meaning) :
    NotesOnly (fun t => (t.referenceOrCreate token meaning).2) token := by
  intro t
  cases h : t.find? meaning.kind token.text <;> simp [referenceOrCreate, h]

theorem notesOnly_declareLabel (token : Token) :
    NotesOnly (fun t => (t.declareLabel token).2) token := by
  intro t
  cases h : t.find? .label token.text with
  | none => simp [declareLabel, h]
  | some id =>
    cases hd : (t.symbols[id]?).map Symbol.isDeclared with
    | none => simp [declareLabel, h, hd]
    | some declared =>
      cases declared with
      | true => simp [declareLabel, h, hd]
      | false =>
        refine Or.inr ?_
        simp [declareLabel, h, hd, mentions, addReference]

end SymbolTable

namespace Mentions

open Parse

/-! ## 2. Stretches -/

/-- What is done on the way from one state to a later one. -/
structure Stretch where
  read : List Token
  noted : List Mention
  faults : List Diagnostic

namespace Stretch

instance : EmptyCollection Stretch := ⟨⟨[], [], []⟩⟩

instance : Append Stretch :=
  ⟨fun m k => ⟨m.read ++ k.read, m.noted ++ k.noted, m.faults ++ k.faults⟩⟩

@[simp] theorem read_empty : (∅ : Stretch).read = [] := rfl

@[simp] theorem noted_empty : (∅ : Stretch).noted = [] := rfl

@[simp] theorem faults_empty : (∅ : Stretch).faults = [] := rfl

@[simp] theorem read_append (m k : Stretch) : (m ++ k).read = m.read ++ k.read := rfl

@[simp] theorem noted_append (m k : Stretch) : (m ++ k).noted = m.noted ++ k.noted := rfl

@[simp] theorem faults_append (m k : Stretch) : (m ++ k).faults = m.faults ++ k.faults := rfl

@[simp] theorem empty_append (m : Stretch) : ∅ ++ m = m := rfl

@[simp] theorem append_empty (m : Stretch) : m ++ ∅ = m := by
  show Stretch.mk _ _ _ = _
  simp

theorem append_assoc (m k l : Stretch) : m ++ k ++ l = m ++ (k ++ l) := by
  show Stretch.mk _ _ _ = Stretch.mk _ _ _
  simp

/-- No error is recorded. -/
def Clean (m : Stretch) : Prop := ∀ d ∈ m.faults, d.isError = false

theorem Clean.left {m k : Stretch} (h : (m ++ k).Clean) : m.Clean :=
  fun d hd => h d (List.mem_append_left _ hd)

theorem Clean.right {m k : Stretch} (h : (m ++ k).Clean) : k.Clean :=
  fun d hd => h d (List.mem_append_right _ hd)

/-- A token is read. -/
def reading (t : Token) : Stretch := ⟨[t], [], []⟩

/-- A place is noted. -/
def noting (x : Mention) : Stretch := ⟨[], [x], []⟩

/-- A fault is recorded. -/
def reporting (f : Fault) : Stretch := ⟨[], [], [.ofFault f]⟩

@[simp] theorem read_reading (t : Token) : (reading t).read = [t] := rfl

@[simp] theorem noted_reading (t : Token) : (reading t).noted = [] := rfl

@[simp] theorem faults_reading (t : Token) : (reading t).faults = [] := rfl

@[simp] theorem read_noting (x : Mention) : (noting x).read = [] := rfl

@[simp] theorem noted_noting (x : Mention) : (noting x).noted = [x] := rfl

@[simp] theorem noted_reporting (f : Fault) : (reporting f).noted = [] := rfl

/-- An error is not clean. -/
theorem not_clean_reporting {f : Fault} (hf : f.cause.severity = .error) (m : Stretch) :
    ¬ (m ++ reporting f).Clean := by
  intro hclean
  have hnone := hclean.right _ (List.mem_singleton_self _)
  rw [Diagnostic.isError, Diagnostic.ofFault, hf] at hnone
  cases hnone

end Stretch

/-- A stretch leads from one state to another. -/
structure Since (s : State) (m : Stretch) (u : State) : Prop where
  eof : u.eof = s.eof
  tokens : s.rest.tokens = m.read ++ u.rest.tokens
  noted : u.symbols.mentions = s.symbols.mentions ++ m.noted
  faults : u.diagnostics.toList = s.diagnostics.toList ++ m.faults

variable {α β : Type} {o s u : State} {m k : Stretch} {I J : Stretch → Prop}

theorem Since.refl (s : State) : Since s ∅ s := ⟨rfl, rfl, by simp, by simp⟩

theorem Since.append (h : Since o m s) (g : Since s k u) : Since o (m ++ k) u where
  eof := g.eof.trans h.eof
  tokens := by rw [h.tokens, g.tokens, Stretch.read_append, List.append_assoc]
  noted := by rw [g.noted, h.noted, Stretch.noted_append, List.append_assoc]
  faults := by rw [g.faults, h.faults, Stretch.faults_append, List.append_assoc]

/-! ## 3. Judgements -/

/-- Whatever was done before a step, if it satisfies `I`, then it satisfies `Q` together with what
    the step does. -/
def Does (s : State) (I : Stretch → Prop) (p : Step α) (Q : α → Stretch → Prop) : Prop :=
  s.eof.kind = .endOfFile → ∃ k, Since s k (p s).2 ∧ ∀ m, I m → Q (p s).1 (m ++ k)

/-- What a parser owes: `Q` if it succeeds, else an error. -/
def Owes (Q : α → Stretch → Prop) : Except Fault α → Stretch → Prop
  | .ok a, m => Q a m
  | .error f, _ => f.cause.severity = .error

/-- A parser does what it owes. -/
def Tries (s : State) (I : Stretch → Prop) (p : Parser α) (Q : α → Stretch → Prop) : Prop :=
  Does s I p.run (Owes Q)

/-- What a turn of a loop ends with: the invariant if the loop goes on, else what the loop ends
    with. -/
def Turns (J : α → Stretch → Prop) (Q : β → Stretch → Prop) : Turn α β → Stretch → Prop
  | .again a, m => J a m
  | .done b, m => Q b m

@[simp] theorem turns_again {J : α → Stretch → Prop} {Q : β → Stretch → Prop} {a : α} :
    Turns J Q (.again a : Turn α β) m ↔ J a m := Iff.rfl

@[simp] theorem turns_done {J : α → Stretch → Prop} {Q : β → Stretch → Prop} {b : β} :
    Turns J Q (.done b : Turn α β) m ↔ Q b m := Iff.rfl

/-! ### Steps -/

namespace Does

variable {p : Step α} {f : α → Step β} {Q R : α → Stretch → Prop} {R' : β → Stretch → Prop}

theorem mono (hp : Does s I p Q) (h : ∀ a m, Q a m → R a m) : Does s I p R := by
  intro heof
  obtain ⟨k, hk, hQ⟩ := hp heof
  exact ⟨k, hk, fun m hm => h _ _ (hQ m hm)⟩

theorem pre (hp : Does s J p Q) (h : ∀ m, I m → J m) : Does s I p Q := by
  intro heof
  obtain ⟨k, hk, hQ⟩ := hp heof
  exact ⟨k, hk, fun m hm => hQ m (h m hm)⟩

/-- What a step does on its own it does behind everything else. -/
theorem frame (hp : Does s J p Q) (hJ : J ∅) (h : ∀ a m k, I m → Q a k → R a (m ++ k)) :
    Does s I p R := by
  intro heof
  obtain ⟨k, hk, hQ⟩ := hp heof
  exact ⟨k, hk, fun m hm => h _ _ _ hm (hQ ∅ hJ)⟩

theorem pure {a : α} (h : ∀ m, I m → Q a m) : Does s I (Pure.pure a) Q :=
  fun _ => ⟨∅, Since.refl s, fun m hm => by rw [Stretch.append_empty]; exact h m hm⟩

theorem bind (hp : Does s I p Q) (hf : ∀ a u, Does u (Q a) (f a) R') :
    Does s I (p >>= f) R' := by
  intro heof
  obtain ⟨k, hk, hQ⟩ := hp heof
  obtain ⟨l, hl, hR⟩ := hf (p s).1 (p s).2 (by rwa [hk.eof])
  refine ⟨k ++ l, hk.append hl, fun m hm => ?_⟩
  rw [← Stretch.append_assoc]
  exact hR _ (hQ m hm)

/-- A step that only looks at the state. -/
theorem look {a : α} (hp : p s = (a, s)) (hf : Does s I (f a) R') : Does s I (p >>= f) R' := by
  unfold Does
  rw [step_bind hp]
  exact hf

theorem dropped {Q : Stretch → Prop} (hp : Does s I p fun _ => Q) :
    Does s I (discard p) fun _ => Q := hp

end Does

/-! ### Parsers -/

namespace Tries

variable {p : Parser α} {f : α → Parser β} {Q R : α → Stretch → Prop} {R' : β → Stretch → Prop}

theorem mono (hp : Tries s I p Q) (h : ∀ a m, Q a m → R a m) : Tries s I p R :=
  Does.mono hp fun r m hr => by
    cases r with
    | ok a => exact h a m hr
    | error fault => exact hr

theorem pre (hp : Tries s J p Q) (h : ∀ m, I m → J m) : Tries s I p Q := Does.pre hp h

/-- **What a parser does on its own** it does behind everything else. -/
theorem frame (hp : Tries s J p Q) (hJ : J ∅) (h : ∀ a m k, I m → Q a k → R a (m ++ k)) :
    Tries s I p R :=
  Does.frame hp hJ fun r m k hm hr => by
    cases r with
    | ok a => exact h a m k hm hr
    | error fault => exact hr

theorem pure {a : α} (h : ∀ m, I m → Q a m) : Tries s I (Pure.pure a) Q := Does.pure h

theorem throw {fault : Fault} (h : fault.cause.severity = .error) :
    Tries s I (MonadExcept.throw fault : Parser α) Q :=
  Does.pure fun _ _ => h

theorem bind (hp : Tries s I p Q) (hf : ∀ a u, Tries u (Q a) (f a) R') :
    Tries s I (p >>= f) R' := by
  unfold Tries
  rw [ExceptT.run_bind]
  refine Does.bind hp fun r u => ?_
  cases r with
  | ok a => exact hf a u
  | error fault => exact Does.pure fun _ h => h

theorem given {a : α} (hf : Tries s I (f a) R') : Tries s I (Pure.pure a >>= f) R' := by
  rw [pure_bind]
  exact hf

/-- Nothing happens behind a parser that fails here. -/
theorem fails {fault : Fault} (hp : p.run s = (.error fault, s))
    (h : fault.cause.severity = .error) : Tries s I (p >>= f) R' := by
  have hall : (p >>= f).run s = (.error fault, s) := by
    rw [ExceptT.run_bind]
    exact step_bind hp
  exact fun _ => ⟨∅, by rw [hall]; exact Since.refl s, fun m _ => by rw [hall]; exact h⟩

/-- A step as a parser. -/
theorem step {p : Step α} (hp : Does s I p Q) : Tries s I (liftM p) Q := hp

/-- A step in front of a parser. -/
theorem after {p : Step α} (hp : Does s I p Q) (hf : ∀ a u, Tries u (Q a) (f a) R') :
    Tries s I (liftM p >>= f) R' :=
  (step hp).bind hf

/-- A step in front of a parser that only looks at the state. -/
theorem look {p : Step α} {a : α} (hp : p s = (a, s)) (hf : Tries s I (f a) R') :
    Tries s I (liftM p >>= f) R' := by
  have heq : (liftM p >>= f : Parser β).run = p >>= fun a => (f a).run := rfl
  unfold Tries
  rw [heq]
  exact Does.look hp hf

theorem get {f : State → Parser β} (hf : Tries s I (f s) R') :
    Tries s I (MonadState.get >>= f) R' :=
  look (p := MonadState.get) rfl hf

theorem map {g : α → β} (hp : Tries s I p fun a => R' (g a)) : Tries s I (g <$> p) R' := by
  rw [map_eq_pure_bind]
  exact hp.bind fun a u => pure fun _ h => h

theorem dropped {Q : Stretch → Prop} (hp : Tries s I p fun _ => Q) :
    Tries s I (discard p) fun _ => Q := by
  unfold discard
  rw [map_const]
  exact map hp

end Tries

/-! ### Repetition -/

/-- **A loop keeps what every turn keeps.** -/
theorem Does.loop {body : α → Step (Turn α β)} {giveUp : α → β} {a : α} {J : α → Stretch → Prop}
    {Q : β → Stretch → Prop} (hbody : ∀ a u, Does u (J a) (body a) (Turns J Q))
    (hgiveUp : ∀ a m, J a m → Q (giveUp a) m) : Does s (J a) (Parse.loop body giveUp a) Q := by
  have hturns (n : Nat) : ∀ a u, Does u (J a) (loopUpTo body giveUp n a) Q := by
    induction n with
    | zero => exact fun a u => Does.pure (hgiveUp a)
    | succ n ih =>
      intro a u
      refine (hbody a u).bind fun turn u' => ?_
      cases turn with
      | again a' => exact ih a' u'
      | done b => exact Does.pure fun _ h => h
  exact Does.look (p := MonadState.get) rfl (hturns _ a s)

/-- **A loop whose turns may fail keeps what every turn keeps.** -/
theorem Tries.tryLoop {body : α → Parser (Turn α β)} {a : α} {J : α → Stretch → Prop}
    {Q : β → Stretch → Prop} (hbody : ∀ a u, Tries u (J a) (body a) (Turns J Q)) :
    Tries s (J a) (Parse.tryLoop body a) Q := by
  refine Does.loop (J := J) (fun a u => ?_) fun a m _ => rfl
  refine Does.bind (hbody a u) fun r u' => ?_
  cases r with
  | ok turn =>
    cases turn with
    | again a' => exact Does.pure fun _ h => h
    | done b => exact Does.pure fun _ h => h
  | error fault => exact Does.pure fun _ h => h

/-! ## 4. Lasting properties -/

/-- A property that only what is noted can end. -/
def Lasting (I : Stretch → Prop) : Prop := ∀ m k, k.noted = [] → I m → I (m ++ k)

/-- Nothing is noted. -/
def Silent (m : Stretch) : Prop := m.noted = []

theorem lasting_silent : Lasting Silent := fun m k hk hm => by
  unfold Silent at hm ⊢
  rw [Stretch.noted_append, hm, hk]
  rfl

/-- A step during which nothing is noted keeps whatever lasts. -/
theorem Does.lasts {p : Step α} (hp : Does s Silent p fun _ => Silent) (hI : Lasting I) :
    Does s I p fun _ => I :=
  hp.frame rfl fun _ m k hm hk => hI m k hk hm

/-! ### Reading -/

/-- A step forward reads the next token, unless it is the end of the file or half a token. -/
theorem since_advance (heof : s.eof.kind = .endOfFile) :
    s.advance.1 = s.current ∧ (Since s (.reading s.current) s.advance.2 ∨
      ¬ s.current.kind.IsWord ∧ Since s ∅ s.advance.2) := by
  unfold State.advance State.current
  cases s.split with
  | some whole =>
    exact ⟨rfl, Or.inr ⟨fun h => h.2 rfl, ⟨rfl, rfl, by simp, by simp⟩⟩⟩
  | none =>
    cases hrest : s.rest.tokens with
    | nil => exact ⟨rfl, Or.inr ⟨fun h => h.1 heof, Since.refl s⟩⟩
    | cons t rest =>
      exact ⟨rfl, Or.inl ⟨rfl, by simp [hrest, Unread.tail], by simp, by simp⟩⟩

theorem does_advance (hI : Lasting I) : Does s I advance fun _ => I := by
  refine Does.lasts (fun heof => ?_) hI
  obtain ⟨-, hread | ⟨-, hnone⟩⟩ := since_advance heof
  · exact ⟨_, hread, fun m hm => lasting_silent m _ rfl hm⟩
  · exact ⟨_, hnone, fun m hm => lasting_silent m _ rfl hm⟩

/-- A word that comes next is read. -/
theorem does_word {Q : Token → Stretch → Prop} (hk : s.current.kind.IsWord)
    (h : ∀ m, I m → Q s.current (m ++ .reading s.current)) : Does s I advance Q := by
  intro heof
  obtain ⟨htoken, hread | ⟨hno, -⟩⟩ := since_advance heof
  · refine ⟨_, hread, fun m hm => ?_⟩
    show Q s.advance.1 _
    rw [htoken]
    exact h m hm
  · exact absurd hk hno

theorem does_consume (kind : Kind) (hI : Lasting I) : Does s I (consume kind) fun _ => I := by
  refine Does.look (sees_eq s kind) ?_
  split
  · exact (does_advance hI).dropped.bind fun _ _ => Does.pure fun _ h => h
  · exact Does.pure fun _ h => h

/-- A word is read if it comes next. -/
theorem does_consume_word {kind : Kind} {Q : Bool → Stretch → Prop} (hk : kind.IsWord)
    (hread : ∀ t m, t.kind = kind → I m → Q true (m ++ .reading t)) (hnone : ∀ m, I m → Q false m) :
    Does s I (consume kind) Q := by
  refine Does.look (sees_eq s kind) ?_
  split
  · rename_i hsees
    have hkind : s.current.kind = kind := eq_of_beq hsees
    refine Does.bind (Q := fun _ => Q true) (Does.dropped ?_) fun _ _ => Does.pure fun _ h => h
    exact does_word (by rwa [hkind]) fun m hm => hread _ m hkind hm
  · exact Does.pure hnone

theorem tries_failHere {cause : Cause} {Q : α → Stretch → Prop} (hcause : cause.severity = .error) :
    Tries s I (failHere cause) Q :=
  Tries.look (current_eq s) (Tries.throw hcause)

theorem tries_expect (kind : Kind) (hI : Lasting I) : Tries s I (expect kind) fun _ => I := by
  refine Tries.look (sees_eq s kind) ?_
  split
  · exact Tries.step (does_advance hI)
  · exact Tries.look (current_eq s) (tries_failHere rfl)

theorem tries_expectSeparator (hI : Lasting I) : Tries s I expectSeparator fun _ => I := by
  refine Tries.look (currentKind_eq s) ?_
  split
  · exact Tries.dropped (Tries.step (does_advance hI))
  · exact Tries.dropped (Tries.step (does_advance hI))
  · exact Tries.pure fun _ h => h
  · exact Tries.look (current_eq s) (tries_failHere rfl)

theorem does_skipWhile (skipped : Kind → Bool) (hI : Lasting I) :
    Does s I (skipWhile skipped) fun _ => I := by
  refine Does.loop (J := fun _ => I) (fun _ u => ?_) fun _ _ h => h
  refine Does.look (currentKind_eq u) ?_
  split
  · exact (does_advance hI).dropped.bind fun _ _ => Does.pure fun _ h => h
  · exact Does.pure fun _ h => h

theorem does_synchronize (hI : Lasting I) : Does s I synchronize fun _ => I := by
  refine (does_skipWhile _ hI).bind fun _ u => Does.look (sees_eq u .endOfFile) ?_
  split
  · exact Does.pure fun _ h => h
  · exact (does_advance hI).dropped

/-! ### Recording -/

theorem does_reportFault {Q : Unit → Stretch → Prop} (f : Fault)
    (h : ∀ m, I m → Q () (m ++ .reporting f)) : Does s I (reportFault f) Q :=
  fun _ => ⟨.reporting f, ⟨rfl, rfl, (List.append_nil _).symm, Array.toList_push⟩, h⟩

theorem does_report (cause : Cause) (span : Span) (hI : Lasting I) :
    Does s I (report cause span) fun _ => I :=
  does_reportFault _ fun m hm => hI m _ rfl hm

/-- Behind an error nothing need hold. -/
theorem does_reportError {cause : Cause} (hcause : cause.severity = .error) (span : Span)
    {Q : Unit → Stretch → Prop} (hQ : ∀ m, ¬ m.Clean → Q () m) :
    Does s I (report cause span) Q :=
  does_reportFault _ fun m _ => hQ _ (Stretch.not_clean_reporting hcause m)

/-! ## 5. What is noted is covered -/

/-- As long as there is no error, whatever is noted is among given mentions, and these stand where
    tokens have been read. -/
def Covers (js : List Mention) (m : Stretch) : Prop :=
  m.Clean → (∀ x ∈ m.noted, x ∈ js) ∧ ∀ x ∈ js, ∃ t ∈ m.read, t.span = x.span

namespace Covers

variable {js ks : List Mention}

theorem nothing : Covers [] ∅ := fun _ => ⟨List.forall_mem_nil _, List.forall_mem_nil _⟩

theorem of_not_clean (h : ¬ m.Clean) : Covers js m := fun hclean => absurd hclean h

theorem append (h : Covers js m) (g : Covers ks k) : Covers (js ++ ks) (m ++ k) := by
  intro hclean
  obtain ⟨hnoted, hstand⟩ := h hclean.left
  obtain ⟨gnoted, gstand⟩ := g hclean.right
  refine ⟨List.forall_mem_append.mpr ⟨fun x hx => ?_, fun x hx => ?_⟩,
    List.forall_mem_append.mpr ⟨fun x hx => ?_, fun x hx => ?_⟩⟩
  · exact List.mem_append_left _ (hnoted x hx)
  · exact List.mem_append_right _ (gnoted x hx)
  · obtain ⟨t, ht, hspan⟩ := hstand x hx
    exact ⟨t, List.mem_append_left _ ht, hspan⟩
  · obtain ⟨t, ht, hspan⟩ := gstand x hx
    exact ⟨t, List.mem_append_right _ ht, hspan⟩

theorem congr (h : Covers js m) (hmem : ∀ x, x ∈ js ↔ x ∈ ks) : Covers ks m := by
  intro hclean
  obtain ⟨hnoted, hstand⟩ := h hclean
  exact ⟨fun x hx => (hmem x).mp (hnoted x hx), fun x hx => hstand x ((hmem x).mpr hx)⟩

/-- A token that has been read stands for a mention, by whatever name. -/
theorem read (h : Covers js m) (t : Token) (name : String) :
    Covers (js ++ [⟨t.span, name⟩]) (m ++ .reading t) := by
  refine h.append fun _ => ⟨List.forall_mem_nil _, ?_⟩
  exact List.forall_mem_singleton.mpr ⟨t, List.mem_singleton_self t, rfl⟩

end Covers

variable {js : List Mention}

theorem lasting_covers : Lasting (Covers js) := by
  intro m k hk hm
  have hnothing : Covers [] k := fun _ =>
    ⟨by rw [hk]; exact List.forall_mem_nil _, List.forall_mem_nil _⟩
  have hall := hm.append hnothing
  rwa [List.append_nil] at hall

/-- A change to the table that notes no other token than a given one. -/
theorem does_change {p : Step α} {change : SymbolTable → SymbolTable} {a : α} {t : Token}
    {Q : α → Stretch → Prop} (hp : p s = (a, { s with symbols := change s.symbols }))
    (hchange : SymbolTable.NotesOnly change t) (hsame : ∀ m, I m → Q a m)
    (hnoted : ∀ m, I m → Q a (m ++ .noting t.mention)) : Does s I p Q := by
  intro _
  rw [hp]
  rcases hchange s.symbols with h | h
  · refine ⟨∅, ⟨rfl, rfl, by rw [h]; simp, by simp⟩, fun m hm => ?_⟩
    rw [Stretch.append_empty]
    exact hsame m hm
  · exact ⟨.noting t.mention, ⟨rfl, rfl, h, (List.append_nil _).symm⟩, hnoted⟩

theorem Covers.note {x : Mention} (h : Covers js m) (hmem : x ∈ js) :
    Covers js (m ++ .noting x) := by
  intro hclean
  obtain ⟨hcovered, hstand⟩ := h hclean.left
  refine ⟨List.forall_mem_append.mpr ⟨hcovered, ?_⟩, fun y hy => ?_⟩
  · exact List.forall_mem_singleton.mpr hmem
  · obtain ⟨t, ht, hspan⟩ := hstand y hy
    exact ⟨t, List.mem_append_left _ ht, hspan⟩

/-- A change that notes a token whose mention is covered. -/
theorem does_covered {p : Step α} {change : SymbolTable → SymbolTable} {a : α} {t : Token}
    (hp : p s = (a, { s with symbols := change s.symbols }))
    (hchange : SymbolTable.NotesOnly change t) (hmem : t.mention ∈ js) :
    Does s (Covers js) p fun _ => Covers js :=
  does_change hp hchange (fun _ hm => hm) fun _ hm => hm.note hmem

theorem does_trySymbols {f : SymbolTable → Bool × SymbolTable} {t : Token}
    (hf : SymbolTable.NotesOnly (fun symbols => (f symbols).2) t) (hmem : t.mention ∈ js) :
    Does s (Covers js) (trySymbols f) fun _ => Covers js := by
  have hrun : trySymbols f s = ((f s.symbols).1, { s with symbols := (f s.symbols).2 }) := rfl
  exact does_covered hrun hf hmem

theorem does_noteVariable {t : Token} (hmem : t.mention ∈ js) :
    Does s (Covers js) (noteVariable t) fun _ => Covers js :=
  does_covered rfl (SymbolTable.notesOnly_referenceOrCreate t _) hmem

theorem does_noteLabel {t : Token} (hmem : t.mention ∈ js) :
    Does s (Covers js) (noteLabel t) fun _ => Covers js :=
  does_covered rfl (SymbolTable.notesOnly_referenceOrCreate t (.label false)) hmem

theorem does_noteCalled {t : Token} (hmem : t.mention ∈ js) :
    Does s (Covers js) (noteCalled t) fun _ => Covers js :=
  does_covered rfl (SymbolTable.notesOnly_referenceOrCreate t .subroutine) hmem

theorem does_noteIfKnown (kind : SymbolKind) {t : Token} (hmem : t.mention ∈ js) :
    Does s (Covers js) (noteIfKnown kind t) fun _ => Covers js :=
  does_trySymbols (SymbolTable.notesOnly_reference? kind t) hmem

/-- A word that comes next is read, and its mention is covered from there on. -/
theorem does_mention (hk : s.current.kind.IsWord) :
    Does s (Covers js) advance fun t m => t = s.current ∧ Covers (js ++ [t.mention]) m :=
  does_word hk fun _ hm => ⟨rfl, hm.read s.current s.current.folded⟩

/-- Whatever comes next is read if it is a word. -/
theorem does_next : Does s (Covers js) advance fun t m =>
    t.kind.IsWord → Covers (js ++ [t.mention]) m := by
  by_cases hk : s.current.kind.IsWord
  · exact (does_mention hk).mono fun _ _ h _ => h.2
  · intro heof
    obtain ⟨htoken, hread | ⟨-, hnone⟩⟩ := since_advance heof
    · exact ⟨_, hread, fun m hm hword => absurd (htoken ▸ hword) hk⟩
    · exact ⟨_, hnone, fun m hm hword => absurd (htoken ▸ hword) hk⟩

theorem tries_expectIdent :
    Tries s (Covers js) expectIdent fun t => Covers (js ++ [t.mention]) := by
  refine Tries.look (sees_eq s .ident) ?_
  split
  · rename_i hsees
    have hword : s.current.kind.IsWord := by
      rw [eq_of_beq hsees]
      decide
    exact Tries.step ((does_mention hword).mono fun _ _ h => h.2)
  · exact tries_failHere rfl

/-! ### Parsers -/

/-- A parser covers what it notes by the mentions of what it gives. -/
def Reads (p : Parser α) (mentions : α → List Mention) : Prop :=
  ∀ s, Tries s (Covers []) p fun a => Covers (mentions a)

section Reads

variable {p : Parser α} {mentions : α → List Mention}

/-- What is covered before is covered behind it. -/
theorem Does.covers {p : Step α} (hp : Does s (Covers []) p fun a => Covers (mentions a)) :
    Does s (Covers js) p fun a => Covers (js ++ mentions a) :=
  hp.frame .nothing fun _ _ _ hm hk => hm.append hk

theorem Tries.covers (hp : Tries s (Covers []) p fun a => Covers (mentions a)) :
    Tries s (Covers js) p fun a => Covers (js ++ mentions a) :=
  hp.frame .nothing fun _ _ _ hm hk => hm.append hk

theorem Reads.covers (hp : Reads p mentions) :
    Tries s (Covers js) p fun a => Covers (js ++ mentions a) :=
  Tries.covers (hp s)

/-- Items between commas cover what each of them covers. -/
theorem reads_commaList (hp : Reads p mentions) :
    Reads (commaList p) fun as => as.flatMap mentions := by
  intro s
  refine (hp s).bind fun first u1 => ?_
  refine Tries.bind (Q := fun items => Covers (items.toList.flatMap mentions)) ?_ fun _ _ =>
    Tries.pure fun _ h => h
  have hstart (m : Stretch) (h : Covers (mentions first) m) :
      Covers ((#[first] : Array α).toList.flatMap mentions) m := by
    simpa using h
  refine Tries.pre (Tries.tryLoop
    (J := fun items : Array α => Covers (items.toList.flatMap mentions)) fun items u2 => ?_) hstart
  refine Tries.after (does_consume .comma lasting_covers) fun found u3 => ?_
  split
  · refine hp.covers.bind fun a u4 => Tries.pure fun m h => ?_
    simpa using h
  · exact Tries.pure fun _ h => h

end Reads

end Mentions

end BasicCheck
