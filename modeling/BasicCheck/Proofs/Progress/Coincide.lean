import BasicCheck.Proofs.Grammar.Block

/-!
# Parsers that coincide

Two parsers coincide below a number of tokens if they do the same from every state that has fewer
tokens left. A part of the grammar that is built over a parser reads with it only where fewer tokens
are left than where the part itself started; so over parsers that coincide below a number of tokens
it does the same from every state with that number left (`Enters`, for operands
`Enters.primaryLayer`). Hence how deep a parser may be nested is of no account: it is what it is built
from (**`nest_eq_layer`**).
-/

namespace BasicCheck.Grammar

open Parse

variable {α β : Type} {n : Nat} {s u : State}

/-! ## 1. Steps -/

/-- Two steps do the same, and go on, from every state with fewer than `n` tokens left. -/
def Coincide (n : Nat) (p q : Step α) : Prop :=
  ∀ s, s.Regular → s.rest.count < n → p s = q s ∧ Past s (p s).2

namespace Coincide

variable {p q : Step α} {f g : α → Step β}

/-- A step coincides with itself. -/
theorem same {Q : State → α → State → Prop} (h : ∀ s, Goes s p (Q s)) : Coincide n p p :=
  fun s hs _ => ⟨rfl, (h s hs).1⟩

theorem looks (h : Looks p) : Coincide n p p := fun s _ _ => ⟨rfl, by
  rw [h s]
  exact .refl s⟩

theorem noteVariable (t : Token) : Coincide n (Parse.noteVariable t) (Parse.noteVariable t) :=
  fun _ _ _ => ⟨rfl, past_noteVariable t⟩

theorem pure (a : α) : Coincide n (Pure.pure a) (Pure.pure a) := fun s _ _ => ⟨rfl, .refl s⟩

theorem bind (hp : Coincide n p q) (hf : ∀ a, Coincide n (f a) (g a)) :
    Coincide n (p >>= f) (q >>= g) := by
  intro s hs hcount
  obtain ⟨heq, hpast⟩ := hp s hs hcount
  rcases hr : p s with ⟨a, u⟩
  rw [hr] at heq hpast
  rw [step_bind hr, step_bind heq.symm]
  obtain ⟨heq', hpast'⟩ :=
    hf a u (hpast.regular hs) (Nat.lt_of_le_of_lt hpast.count_le hcount)
  exact ⟨heq', hpast.trans hpast'⟩

/-- A step that only looks at the state. -/
theorem look (h : Looks p) (hf : ∀ a, Coincide n (f a) (g a)) : Coincide n (p >>= f) (p >>= g) :=
  (looks h).bind hf

theorem dropped (hp : Coincide n p q) : Coincide n (discard p) (discard q) :=
  hp.bind fun _ => pure _

theorem loop (turn turn' : α → Step (Turn α β)) {giveUp : α → β}
    (hturn : ∀ a, Coincide n (turn a) (turn' a)) (a : α) :
    Coincide n (Parse.loop turn giveUp a) (Parse.loop turn' giveUp a) := by
  have hturns (k : Nat) :
      ∀ a, Coincide n (loopUpTo turn giveUp k a) (loopUpTo turn' giveUp k a) := by
    induction k with
    | zero => exact fun a => pure _
    | succ k ih =>
      refine fun a => (hturn a).bind fun outcome => ?_
      cases outcome with
      | again a' => exact ih a'
      | done b => exact pure b
  exact fun s hs hcount => hturns (s.size + 1) a s hs hcount

end Coincide

/-! ## 2. Parsers -/

/-- Two parsers coincide below a number of tokens. -/
def Concurs (n : Nat) (p q : Parser α) : Prop := Coincide n p.run q.run

namespace Concurs

variable {p q : Parser α} {f g : α → Parser β}

theorem same {Q : State → α → State → Prop} (h : ∀ s, Tries s p (Q s)) : Concurs n p p :=
  Coincide.same h

theorem pure (a : α) : Concurs n (Pure.pure a) (Pure.pure a) := Coincide.pure _

theorem throw (fault : Fault) :
    Concurs n (MonadExcept.throw fault : Parser α) (MonadExcept.throw fault) :=
  Coincide.pure _

theorem bind (hp : Concurs n p q) (hf : ∀ a, Concurs n (f a) (g a)) :
    Concurs n (p >>= f) (q >>= g) := by
  unfold Concurs
  rw [ExceptT.run_bind, ExceptT.run_bind]
  refine Coincide.bind hp fun r => ?_
  cases r with
  | ok a => exact hf a
  | error fault => exact Coincide.pure _

/-- Nothing is done behind a fault. -/
theorem throw_bind (fault : Fault) :
    Concurs n (MonadExcept.throw fault >>= f) (MonadExcept.throw fault >>= g) :=
  fun s _ _ => ⟨rfl, .refl s⟩

/-- A step as a parser. -/
theorem step {p q : Step α} (hp : Coincide n p q) : Concurs n (liftM p) (liftM q) :=
  Coincide.bind hp fun _ => Coincide.pure _

/-- A step in front of a parser. -/
theorem after {p q : Step α} (hp : Coincide n p q) (hf : ∀ a, Concurs n (f a) (g a)) :
    Concurs n (liftM p >>= f) (liftM q >>= g) :=
  (step hp).bind hf

/-- A step in front of a parser that only looks at the state. -/
theorem look {p : Step α} (h : Looks p) (hf : ∀ a, Concurs n (f a) (g a)) :
    Concurs n (liftM p >>= f) (liftM p >>= g) :=
  after (.looks h) hf

theorem failHere (cause : Cause) :
    Concurs n (Parse.failHere cause : Parser α) (Parse.failHere cause) :=
  look (fun _ => rfl) fun _ => throw _

theorem get {f g : State → Parser β} (hf : ∀ s, Concurs n (f s) (g s)) :
    Concurs n (MonadState.get >>= f) (MonadState.get >>= g) :=
  after (p := MonadState.get) (.looks fun _ => rfl) hf

theorem map (f : α → β) (hp : Concurs n p q) : Concurs n (f <$> p) (f <$> q) := by
  rw [map_eq_pure_bind, map_eq_pure_bind]
  exact hp.bind fun a => pure (f a)

theorem dropped (hp : Concurs n p q) : Concurs n (discard p) (discard q) := by
  unfold discard
  rw [map_const]
  exact map _ hp

theorem tryLoop (body body' : α → Parser (Turn α β)) (hbody : ∀ a, Concurs n (body a) (body' a))
    (a : α) : Concurs n (Parse.tryLoop body a) (Parse.tryLoop body' a) := by
  refine Coincide.loop (tryTurn body) (tryTurn body') (fun a => ?_) a
  refine Coincide.bind (hbody a) fun r => ?_
  cases r with
  | ok turn => cases turn <;> exact Coincide.pure _
  | error fault => exact Coincide.pure _

theorem commaList {item item' : Parser α} (hitem : Concurs n item item') :
    Concurs n (Parse.commaList item) (Parse.commaList item') := by
  refine hitem.bind fun first => ?_
  refine bind (tryLoop (commaTurn item) (commaTurn item') (fun items => ?_) _)
    fun items => pure _
  refine after (.same fun _ => goes_consume .comma) fun found => ?_
  split
  · exact hitem.bind fun a => pure _
  · exact pure _

end Concurs

/-- From one state two parsers do the same, and fewer than `n` tokens are left if they succeed. -/
def Enters (n : Nat) (s : State) (p q : Parser α) : Prop :=
  s.Regular → p.run s = q.run s ∧ Past s (p.run s).2 ∧
    ∀ a, (p.run s).1 = .ok a → (p.run s).2.rest.count < n

namespace Enters

variable {p q : Parser α} {f g : α → Parser β}

/-- A word is read. -/
theorem word (hword : s.current.kind.IsWord) (hcount : s.rest.count ≤ n) :
    Enters n s (liftM advance) (liftM advance) := by
  intro hs
  have hopens : Opens s s.current s.advance.2 := ⟨rfl, hword, .refl _⟩
  exact ⟨rfl, hopens.past, fun _ _ => Nat.lt_of_lt_of_le (hopens.count_lt hs) hcount⟩

theorem bind (hp : Enters n s p q) (hf : ∀ a, Concurs n (f a) (g a)) :
    Enters n s (p >>= f) (q >>= g) := by
  intro hs
  obtain ⟨heq, hpast, hcount⟩ := hp hs
  rw [ExceptT.run_bind, ExceptT.run_bind]
  rcases hr : p.run s with ⟨r, u⟩
  rw [hr] at heq hpast hcount
  rw [step_bind hr, step_bind heq.symm]
  cases r with
  | error fault => exact ⟨rfl, hpast, nofun⟩
  | ok a =>
    have hlt := hcount a rfl
    obtain ⟨heq', hpast'⟩ := hf a u (hpast.regular hs) hlt
    exact ⟨heq', hpast.trans hpast', fun _ _ => Nat.lt_of_le_of_lt hpast'.count_le hlt⟩

/-- A word is read over. -/
theorem skip (hword : s.current.kind.IsWord) (hcount : s.rest.count ≤ n) :
    Enters n s (discard (liftM advance : Parser Token))
      (discard (liftM advance : Parser Token)) := by
  unfold discard
  rw [map_const]
  show Enters n s (Function.const Token () <$> liftM advance) _
  rw [map_eq_pure_bind]
  exact (word hword hcount).bind fun _ => .pure _

/-- A step in front of a parser that only looks at the state. -/
theorem look {p : Step α} {a : α} (hp : p s = (a, s)) (hf : Enters n s (f a) (g a)) :
    Enters n s (liftM p >>= f) (liftM p >>= g) := by
  have hrun (f : α → Parser β) : (liftM p >>= f : Parser β).run s = (f a).run s := run_after hp
  unfold Enters
  rw [hrun f, hrun g]
  exact hf

theorem throw (fault : Fault) :
    Enters n s (MonadExcept.throw fault : Parser α) (MonadExcept.throw fault) :=
  fun _ => ⟨rfl, .refl s, nofun⟩

theorem failHere (cause : Cause) :
    Enters n s (Parse.failHere cause : Parser α) (Parse.failHere cause) :=
  look (current_eq s) (throw _)

end Enters

/-- What is done behind two parsers that do the same is the same. -/
theorem run_bind_congr {p q : Parser α} {f : α → Parser β} (h : p.run s = q.run s) :
    (p >>= f).run s = (q >>= f).run s := by
  show ExceptT.bindCont f (p.run s).1 (p.run s).2 = ExceptT.bindCont f (q.run s).1 (q.run s).2
  rw [h]

/-- What is done behind a step that only looks at the state. -/
theorem run_look_congr {p : Step α} {a : α} {f g : α → Parser β} (hp : p s = (a, s))
    (h : (f a).run s = (g a).run s) : (liftM p >>= f : Parser β).run s = (liftM p >>= g).run s := by
  have hrun (f : α → Parser β) : (liftM p >>= f : Parser β).run s = (f a).run s := run_after hp
  rw [hrun, hrun, h]

/-! ## 3. Nesting -/

section Nesting

variable {layer : Parser α → Parser α}
  (hgoes : ∀ k s, Goes s (nestUpTo layer k).run fun _ _ => True)
  (hlayer : ∀ {n : Nat} {p q : Parser α}, Concurs n p q → ∀ s, s.Regular → s.rest.count ≤ n →
    (layer p).run s = (layer q).run s)

include hgoes hlayer

/-- Limits to nesting are all the same that are greater than the number of tokens left. -/
theorem nestUpTo_congr {j k : Nat} (hs : s.Regular) (hj : s.rest.count < j)
    (hk : s.rest.count < k) : (nestUpTo layer j).run s = (nestUpTo layer k).run s := by
  -- by induction on the number of tokens left, which is less wherever the layer reads with itself
  induction hcount : s.rest.count using Nat.strongRecOn generalizing s j k with
  | ind count ih =>
    obtain ⟨j, rfl⟩ := Nat.exists_eq_succ_of_ne_zero (Nat.ne_zero_of_lt hj)
    obtain ⟨k, rfl⟩ := Nat.exists_eq_succ_of_ne_zero (Nat.ne_zero_of_lt hk)
    have hwithin : Concurs s.rest.count (nestUpTo layer j) (nestUpTo layer k) := by
      intro u hu hlt
      refine ⟨?_, (hgoes j u hu).1⟩
      exact ih u.rest.count (hcount ▸ hlt) hu (by omega) (by omega) rfl
    exact hlayer hwithin s hs (Nat.le_refl _)

/-- **How deep a parser may be nested is of no account** if it reads at least one token before it
    reads with itself: it is what it is built from. -/
theorem nest_eq_layer (hs : s.Regular) : (nest layer).run s = (layer (nest layer)).run s := by
  have hsize (u : State) : u.rest.count ≤ u.size := by
    unfold State.size
    omega
  have hwithin : Concurs s.rest.count (nestUpTo layer s.size) (nest layer) := by
    intro u hu hlt
    refine ⟨nestUpTo_congr hgoes hlayer (k := u.size + 1) hu ?_ ?_, (hgoes s.size u hu).1⟩
    · exact Nat.lt_of_lt_of_le hlt (hsize s)
    · exact Nat.lt_succ_of_le (hsize u)
  exact hlayer hwithin s hs (Nat.le_refl _)

end Nesting

/-! ## 4. Expressions -/

/-- Reads indexes behind their `<`, up to their `>`. -/
def indexesBehind? (primary : Parser Expr) : Step (Option (List Expr)) := do
  match ← (commaList (concatenations primary)).run with
  | .ok indexes => if ← closeAngle then return some indexes else return none
  | .error _ => return none

theorem closedIndexes?_eq (primary : Parser Expr) (s : State) :
    closedIndexes? primary s = indexesBehind? primary s.advance.2 :=
  rfl

section Expressions

variable {p q : Parser Expr} (h : Concurs n p q)

include h

theorem Concurs.chain (isOperator : Kind → Bool) :
    Concurs n (Parse.chain p isOperator) (Parse.chain q isOperator) := by
  refine h.bind fun first => tryLoop (chainTurn p isOperator)
    (chainTurn q isOperator) (fun left => ?_) first
  refine look looks_currentKind fun kind => ?_
  split
  · exact (same fun _ => tries_takeOperator).bind fun op => h.bind fun right => pure _
  · exact pure _

theorem Concurs.concatenations : Concurs n (Parse.concatenations p) (Parse.concatenations q) :=
  (((h.chain _).chain _).chain _).chain _

theorem Concurs.expressionOver : Concurs n (Parse.expressionOver p) (Parse.expressionOver q) :=
  (h.concatenations.chain _).chain _

theorem Concurs.argumentsOver : Concurs n (Parse.argumentsOver p) (Parse.argumentsOver q) := by
  refine (same fun _ => tries_expected _).bind fun _ => look (looks_sees _) fun empty => ?_
  have hclose (args : List Expr) : Concurs n (do
      discard (expect .rightParen)
      return args) (do
      discard (expect .rightParen)
      return args) :=
    (same fun _ => tries_expected _).bind fun _ => pure _
  dsimp only
  split
  · exact (pure _).bind hclose
  · exact h.expressionOver.commaList.bind hclose

theorem Concurs.rowAndColumn (start : Span) :
    Concurs n (Parse.rowAndColumn p start) (Parse.rowAndColumn q start) := by
  refine h.argumentsOver.bind fun args => ?_
  cases args with
  | nil => exact get fun s => throw _
  | cons row cols =>
    dsimp only
    split
    · refine look (fun _ => rfl) fun span => after (.same fun _ => goes_report _ _) fun _ => pure _
    · exact pure _

theorem Coincide.indexesBehind? :
    Coincide n (Grammar.indexesBehind? p) (Grammar.indexesBehind? q) := by
  refine bind (Concurs.commaList h.concatenations) fun items => ?_
  cases items with
  | error fault => exact pure _
  | ok indexes =>
    refine (same fun _ => goes_closeAngle).bind fun closed => ?_
    split <;> exact pure _

/-- An attempt reads with operands only behind its `<`. -/
theorem angleIndexes?_congr (base : Expr) (hs : s.Regular)
    (hcount : s.advance.2.rest.count < n) :
    Parse.angleIndexes? p base s = Parse.angleIndexes? q base s ∧
      Past s (Parse.angleIndexes? p base s).2 := by
  have hadvance := Past.advance s
  obtain ⟨heq, hpast⟩ := Coincide.indexesBehind? h s.advance.2 (hadvance.regular hs) hcount
  rw [← closedIndexes?_eq, ← closedIndexes?_eq] at heq
  rw [← closedIndexes?_eq] at hpast
  replace hpast := hadvance.trans hpast
  rcases hr : Parse.closedIndexes? p s with ⟨found, u⟩
  rw [hr] at heq hpast
  rw [angleIndexes?_eq hr, angleIndexes?_eq heq.symm]
  refine ⟨rfl, ?_⟩
  cases found with
  | none => exact hpast.takeBack
  | some indexes => exact hpast.trans (goes_checkIndexes base indexes (hpast.regular hs)).1.toPast

theorem Coincide.angleIndexes? (base : Expr) :
    Coincide n (Parse.angleIndexes? p base) (Parse.angleIndexes? q base) := fun s hs hcount =>
  angleIndexes?_congr h base hs (Nat.lt_of_le_of_lt (Past.advance s).count_le hcount)

theorem Concurs.substringOf (base : Expr) :
    Concurs n (Parse.substringOf p base) (Parse.substringOf q base) := by
  refine (same fun _ => tries_skip).bind fun _ => h.expressionOver.commaList.bind fun indexes => ?_
  refine (same fun _ => tries_expected _).bind fun _ => look (fun _ => rfl) fun span => ?_
  dsimp only
  split
  · exact after (.same fun _ => goes_report _ _) fun _ => pure _
  · exact pure _

theorem Concurs.memberOf (object : Expr) :
    Concurs n (Parse.memberOf p object) (Parse.memberOf q object) := by
  refine (same fun _ => tries_skip).bind fun _ => after (.same fun _ => goes_advance) fun token => ?_
  dsimp only
  split
  · refine look (looks_sees _) fun called => ?_
    split
    · exact h.argumentsOver.bind fun args => look (fun _ => rfl) fun span => pure _
    · exact look (fun _ => rfl) fun span => pure _
  · exact throw_bind _

theorem Concurs.suffixes (base : Expr) :
    Concurs n (Parse.suffixes p base) (Parse.suffixes q base) := by
  refine tryLoop (suffixTurn p) (suffixTurn q) (fun e => ?_) base
  refine look looks_currentKind fun kind => ?_
  split
  · split
    · refine after (Coincide.angleIndexes? h e) fun found => ?_
      cases found with
      | none => exact pure _
      | some indexes => exact look (fun _ => rfl) fun span => pure _
    · exact pure _
  · exact (h.substringOf _).bind fun e => pure _
  · exact (h.memberOf _).bind fun e => pure _
  · exact pure _

theorem Concurs.callOf (name : Ident) : Concurs n (Parse.callOf p name) (Parse.callOf q name) :=
  h.argumentsOver.bind fun _ => look (fun _ => rfl) fun _ => pure _

variable (hcount : s.rest.count ≤ n)

include hcount

theorem Enters.named (hword : s.current.kind.IsWord) :
    Enters n s (Parse.named p) (Parse.named q) := by
  refine (word hword hcount).bind fun token => .look (looks_sees _) fun called => ?_
  split
  · refine .get fun s => ?_
    split
    · refine .after (.noteVariable _) fun _ => ?_
      refine (h.rowAndColumn _).bind fun found => ?_
      exact .look (fun _ => rfl) fun span => .pure _
    · refine .after (.same fun _ => goes_noteIfKnown _ _) fun known => ?_
      dsimp only
      split
      · exact .after (.same fun _ => goes_report _ _) fun _ => h.callOf _
      · exact h.callOf _
  · refine .after (.same fun _ => goes_noteIfKnown _ _) fun known => ?_
    dsimp only
    split
    · exact .pure _
    · exact .after (.noteVariable _) fun _ => .pure _

theorem Enters.conditional (hword : s.current.kind.IsWord) :
    Enters n s (Parse.conditional p) (Parse.conditional q) := by
  have hword' (keyword : Keyword) : Concurs n (discard (expect (.keyword keyword)))
      (discard (expect (.keyword keyword))) :=
    .same fun _ => tries_expected _
  refine (word hword hcount).bind fun token => h.expressionOver.bind fun cond => ?_
  refine (hword' .THEN).bind fun _ => h.expressionOver.bind fun thenValue => ?_
  refine (hword' .ELSE).bind fun _ => h.expressionOver.bind fun elseValue => ?_
  exact .look (fun _ => rfl) fun span => .pure _

theorem Enters.keywordOperand {keyword : Keyword} (hk : s.current.kind = .keyword keyword) :
    Enters n s (Parse.keywordOperand p keyword) (Parse.keywordOperand q keyword) := by
  have hword : s.current.kind.IsWord := by
    rw [hk]
    exact Kind.isWord_keyword keyword
  refine look (current_eq s) (look (looks_seesFunctionKeyword s) ?_)
  split
  · refine (skip hword hcount).bind fun _ => ?_
    refine (Concurs.step (.same fun _ => goes_noteIfKnown _ _)).dropped.bind fun _ => h.callOf _
  · split
    · exact Enters.conditional h hcount hword
    · split
      · refine (skip hword hcount).bind fun _ => ?_
        exact .after (.noteVariable _) fun _ => .pure _
      · exact failHere _

/-- **A layer of operands** reads with the operands within it only behind its first token. -/
theorem Enters.primaryLayer : Enters n s (Parse.primaryLayer p) (Parse.primaryLayer q) := by
  have hskip {kind : Kind} (hk : s.current.kind = kind) (hword : kind.IsWord) :=
    skip (n := n) (hk ▸ hword) hcount
  refine look (current_eq s) ?_
  split
  · rename_i hk
    exact (hskip hk (by decide)).bind fun _ => h.suffixes _
  · rename_i hk
    exact (hskip hk (by decide)).bind fun _ => h.suffixes _
  · rename_i hk
    exact (hskip hk (by decide)).bind fun _ => h.suffixes _
  · rename_i hk
    refine (hskip hk (by decide)).bind fun _ => h.expressionOver.bind fun inner => ?_
    exact (Concurs.same fun _ => tries_expected _).bind fun _ => h.suffixes _
  · rename_i hk
    exact (hskip hk (by decide)).bind fun _ => h.bind fun inner => .pure _
  · rename_i hk
    exact (hskip hk (by decide)).bind fun _ => h
  · rename_i hk
    refine (hskip hk (by decide)).bind fun _ => .look (looks_sees _) fun called => ?_
    split
    · exact (h.callOf _).bind fun base => h.suffixes _
    · exact .failHere _
  · rename_i hk
    refine (hskip hk (by decide)).bind fun _ => ?_
    exact .after (.noteVariable _) fun _ => h.suffixes _
  · rename_i hk
    have hword : s.current.kind.IsWord := by
      rw [hk]
      decide
    exact (Enters.named h hcount hword).bind fun base => h.suffixes _
  · rename_i hk
    exact (Enters.keywordOperand h hcount hk).bind fun base => h.suffixes _
  · exact throw _

end Expressions

end BasicCheck.Grammar
