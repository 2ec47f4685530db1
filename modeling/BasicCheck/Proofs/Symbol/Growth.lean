import BasicCheck.Proofs.Symbol.Reached

/-!
# What an operation leaves as it is

An operation is refused, and then it does nothing, or it notes its token as one further reference: to
a symbol that is there, to a new one, or to a label that was only referred to and is declared by it
(`SymbolTable.Effect`, **`SymbolTable.effect_apply`**). All that is known of the symbols from before
stays (`SymbolTable.Extended`); only the label that is declared (`Operation.promoted?`) gets another
token.

Whatever is done to a table, a label is declared so at most once, for neither an operation nor a
rollback that leaves its symbol takes the declaration back (**`SymbolTable.grows_only`**).
-/

namespace BasicCheck

/-! ## 1. Operations and their answers -/

/-- What an operation answers: whether a declaration was accepted, the symbol that was found, if any,
    or the symbol that is there in any case. -/
inductive Answer where
  | accepted (done : Bool)
  | found (id : Option Nat)
  | named (id : Nat)
  deriving DecidableEq, Repr

/-- A declaration that is not accepted is refused, and so is a reference to what is not there. -/
def Answer.isRefusal : Answer → Bool
  | accepted done => !done
  | found id => id.isNone
  | named _ => false

namespace Operation

/-- The token that is declared or referred to. -/
def token : Operation → Token
  | declareFunction token | declareSubroutine token | declareInsert token
  | declareCommonBlock token | declareEquate token _ | declareMatrix token _ _
  | declareCommonVariable token _ | declareParameter token _ | declareLabel token
  | referenceVariable token | referenceEquate token | referenceFunction token
  | referenceSubroutine token | referenceOrDeclareSubroutine token | referenceLabel token => token

/-- What is answered by a table. -/
def answer (t : SymbolTable) : Operation → Answer
  | declareFunction token => .accepted (t.declareFunction token).1
  | declareSubroutine token => .accepted (t.declareSubroutine token).1
  | declareInsert token => .accepted (t.declareInsert token).1
  | declareCommonBlock token => .accepted (t.declareCommonBlock token).1
  | declareEquate token value => .accepted (t.declareEquate token value).1
  | declareMatrix token rows cols => .accepted (t.declareMatrix token rows cols).1
  | declareCommonVariable token dimensions =>
    .accepted (t.declareCommonVariable token dimensions).1
  | declareParameter token matrix => .accepted (t.declareParameter token matrix).1
  | declareLabel token => .accepted (t.declareLabel token).1
  | referenceVariable token => .named (t.referenceVariable token).1
  | referenceEquate token => .found (t.referenceEquate token).1
  | referenceFunction token => .found (t.referenceFunction token).1
  | referenceSubroutine token => .found (t.referenceSubroutine token).1
  | referenceOrDeclareSubroutine token => .named (t.referenceOrDeclareSubroutine token).1
  | referenceLabel token => .named (t.referenceLabel token).1

/-- The label that was only referred to so far and is declared by an operation. -/
def promoted? (t : SymbolTable) : Operation → Option Nat
  | declareLabel token =>
    (t.find? .label token.text).filter fun id => t.symbols[id]?.any fun s => !s.isDeclared
  | _ => none

end Operation

/-- Only a label can be known without being declared. -/
theorem Symbol.meaning_of_not_isDeclared {s : Symbol} (h : s.isDeclared = false) :
    s.meaning = .label false := by
  obtain ⟨id, name, token, meaning, references⟩ := s
  cases meaning with
  | label declared => exact congrArg Meaning.label h
  | _ => cases h

namespace SymbolTable

variable {t u : SymbolTable} {token : Token}

/-! ## 2. Effects -/

/-- What an operation on a token makes of a table, told together with whether it is refused and which
    label it promotes. -/
inductive Effect (t : SymbolTable) (token : Token) : Bool → Option Nat → SymbolTable → Prop where
  | refuse : Effect t token true none t
  | refer (id : Nat) : Effect t token false none (t.addReference id token)
  | create {meaning : Meaning}
      (hfree : t.keys[(⟨meaning.kind, token.folded⟩ : SymbolKey)]? = none) :
      Effect t token false none (t.create token meaning)
  | promote {id : Nat} {s : Symbol} (hs : t.symbols[id]? = some s) (hunknown : s.isDeclared = false) :
      Effect t token false (some id) ((t.declareAt id token).addReference id token)

theorem effect_declare (t : SymbolTable) (token : Token) (meaning : Meaning) :
    t.Effect token (!(t.declare token meaning).1) none (t.declare token meaning).2 := by
  unfold declare
  split
  · exact .refuse
  · rename_i hfree
    have hnone : t.keys[(⟨meaning.kind, token.folded⟩ : SymbolKey)]? = none := by
      simpa [contains, find?, Token.folded] using hfree
    exact .create hnone

theorem effect_reference? (t : SymbolTable) (kind : SymbolKind) (token : Token) :
    t.Effect token (t.reference? kind token).1.isNone none (t.reference? kind token).2 := by
  unfold reference?
  split
  · exact .refer _
  · exact .refuse

theorem effect_referenceOrCreate (t : SymbolTable) (token : Token) (meaning : Meaning) :
    t.Effect token false none (t.referenceOrCreate token meaning).2 := by
  unfold referenceOrCreate
  split
  · exact .refer _
  · rename_i hfree
    exact .create hfree

theorem effect_declareLabel (t : SymbolTable) (token : Token) :
    t.Effect token (!(t.declareLabel token).1) ((Operation.declareLabel token).promoted? t)
      (t.declareLabel token).2 := by
  have hpromoted : (Operation.declareLabel token).promoted? t =
      (t.find? .label token.text).filter fun id => t.symbols[id]?.any fun s => !s.isDeclared := rfl
  rw [hpromoted]
  -- a new name is created, a label that was only referred to is promoted, and another one is refused
  unfold declareLabel
  split
  · rename_i hfree
    rw [hfree]
    exact .create hfree
  · rename_i id hid
    rw [hid]
    cases hs : t.symbols[id]? with
    | none =>
      rw [Option.filter_some_neg (by simp [hs])]
      exact .refuse
    | some s =>
      rw [Option.map_some]
      cases hknown : s.isDeclared with
      | true =>
        rw [Option.filter_some_neg (by simp [hs, hknown])]
        exact .refuse
      | false =>
        rw [Option.filter_some_pos (by simp [hs, hknown])]
        exact .promote hs hknown

/-- **Every operation has one of the four effects.** -/
theorem effect_apply (t : SymbolTable) (op : Operation) :
    t.Effect op.token (op.answer t).isRefusal (op.promoted? t) (op.apply t) := by
  cases op with
  | declareFunction token => exact effect_declare t token _
  | declareSubroutine token => exact effect_declare t token _
  | declareInsert token => exact effect_declare t token _
  | declareCommonBlock token => exact effect_declare t token _
  | declareEquate token value => exact effect_declare t token _
  | declareMatrix token rows cols => exact effect_declare t token _
  | declareCommonVariable token dimensions => exact effect_declare t token _
  | declareParameter token matrix => exact effect_declare t token _
  | declareLabel token => exact effect_declareLabel t token
  | referenceVariable token => exact effect_referenceOrCreate t token _
  | referenceEquate token => exact effect_reference? t _ token
  | referenceFunction token => exact effect_reference? t _ token
  | referenceSubroutine token => exact effect_reference? t _ token
  | referenceOrDeclareSubroutine token => exact effect_referenceOrCreate t token _
  | referenceLabel token => exact effect_referenceOrCreate t token _

/-! ## 3. What stays -/

end SymbolTable

namespace Symbol

/-- What a variable holds, if the symbol is one. -/
def shape? (s : Symbol) : Option Shape :=
  match s.meaning with
  | .variable _ shape => some shape
  | _ => none

/-- What an equate stands for, if the symbol is one. -/
def value? (s : Symbol) : Option Expr :=
  match s.meaning with
  | .equate value => some value
  | _ => none

/-- What is known of a symbol for good: all but its token and whether it is declared. Further
    references come behind those that are there. -/
structure Continues (s s' : Symbol) : Prop where
  id : s'.id = s.id
  kind : s'.kind = s.kind
  name : s'.name = s.name
  scope : s'.scope? = s.scope?
  shape : s'.shape? = s.shape?
  value : s'.value? = s.value?
  references : s.references.toList <+: s'.references.toList

theorem Continues.refl (s : Symbol) : s.Continues s :=
  ⟨rfl, rfl, rfl, rfl, rfl, rfl, List.prefix_rfl⟩

/-- A symbol is continued by a further reference, wherever it was declared. -/
theorem continues_push (s : Symbol) (token : Token) (n : Nat) :
    s.Continues { s with token, references := s.references.push n } where
  id := rfl
  kind := rfl
  name := rfl
  scope := rfl
  shape := rfl
  value := rfl
  references := by
    rw [Array.toList_push]
    exact List.prefix_append _ _

/-- A label is continued by its declaration. -/
theorem continues_declared {s : Symbol} (h : s.meaning = .label false) (token : Token) (n : Nat) :
    s.Continues
      { s with token, meaning := .label true, references := s.references.push n } := by
  have hpush := s.continues_push token n
  obtain ⟨id, name, token', meaning, references⟩ := s
  cases h
  exact ⟨rfl, rfl, rfl, rfl, rfl, rfl, hpush.references⟩

end Symbol

namespace SymbolTable

variable {t u : SymbolTable} {token : Token}

/-- A table with one more reference, and at most one more symbol, in which all symbols from before go
    on; the label that is promoted, if any, is now declared with a given token. -/
structure Extended (t : SymbolTable) (token : Token) (promoted : Option Nat) (u : SymbolTable) :
    Prop where
  references : ∃ id, u.references = t.references.push ⟨id, token⟩
  size : u.symbols.size = t.symbols.size ∨ u.symbols.size = t.symbols.size + 1
  symbols : ∀ {i : Nat} {s : Symbol}, t.symbols[i]? = some s →
    ∃ s', u.symbols[i]? = some s' ∧ s.Continues s' ∧
      if promoted = some i then
        s.isDeclared = false ∧ s'.isDeclared = true ∧ s'.token = token
      else s'.isDeclared = s.isDeclared ∧ s'.token = s.token

theorem extended_addReference (t : SymbolTable) (id : Nat) (token : Token) :
    t.Extended token none (t.addReference id token) where
  references := ⟨id, rfl⟩
  size := Or.inl Array.size_modify
  symbols {i s} hs := by
    rw [symbols_addReference, hs]
    split
    · exact ⟨_, rfl, s.continues_push s.token _, rfl, rfl⟩
    · exact ⟨s, rfl, .refl s, rfl, rfl⟩

theorem extended_create (t : SymbolTable) (token : Token) (meaning : Meaning) :
    t.Extended token none (t.create token meaning) where
  references := ⟨t.symbols.size, rfl⟩
  size := by
    rw [create_eq, addReference, Array.size_modify, size_addSymbol]
    exact Or.inr rfl
  symbols {i s} hs := by
    obtain ⟨hi, -⟩ := Array.getElem?_eq_some_iff.mp hs
    have hold : (t.addSymbol token meaning).symbols[i]? = some s := by
      rw [symbols_addSymbol, Array.getElem?_push, if_neg (Nat.ne_of_lt hi), hs]
    rw [create_eq]
    exact (extended_addReference _ _ token).symbols hold

theorem extended_promote {id : Nat} {s : Symbol} (hs : t.symbols[id]? = some s)
    (hunknown : s.isDeclared = false) (token : Token) :
    t.Extended token (some id) ((t.declareAt id token).addReference id token) where
  references := ⟨id, rfl⟩
  size := by
    rw [addReference, Array.size_modify, declareAt, Array.size_modify]
    exact Or.inl rfl
  symbols {i x} hx := by
    rw [symbols_addReference, symbols_declareAt, hx]
    by_cases hi : id = i
    · subst hi
      obtain rfl : s = x := Option.some.inj (hs.symm.trans hx)
      rw [if_pos rfl, if_pos rfl, Option.map_some, Option.map_some]
      have hmeaning := Symbol.meaning_of_not_isDeclared hunknown
      refine ⟨_, rfl, Symbol.continues_declared hmeaning token _, ?_⟩
      rw [if_pos rfl]
      exact ⟨hunknown, rfl, rfl⟩
    · have hother : ¬ (some id = some i) := fun h => hi (Option.some.inj h)
      rw [if_neg hi, if_neg hi]
      refine ⟨x, rfl, .refl x, ?_⟩
      rw [if_neg hother]
      exact ⟨rfl, rfl⟩

/-- What is not refused extends the table. -/
theorem Effect.extended {promoted : Option Nat} (h : t.Effect token false promoted u) :
    t.Extended token promoted u := by
  cases h with
  | refer id => exact extended_addReference t id token
  | create hfree => exact extended_create t token _
  | promote hs hunknown => exact extended_promote hs hunknown token

/-- What is refused changes nothing. -/
theorem Effect.eq_of_refused {promoted : Option Nat} (h : t.Effect token true promoted u) :
    u = t := by
  cases h
  rfl

end SymbolTable

/-! ## 4. A label is declared once -/

/-- One thing that is done to a table: an operation on it, or a rollback. -/
inductive Use where
  | operate (op : Operation)
  | rollback (mark : Checkpoint)

/-- The table behind it. -/
def Use.apply (t : SymbolTable) : Use → SymbolTable
  | operate op => op.apply t
  | rollback mark => t.rollback mark

/-- The label that was only referred to so far and is declared by it. -/
def Use.promoted? (t : SymbolTable) : Use → Option Nat
  | operate op => op.promoted? t
  | rollback _ => none

namespace SymbolTable

/-- The table behind several uses. -/
def after (t : SymbolTable) (uses : List Use) : SymbolTable := uses.foldl Use.apply t

/-- The labels that are declared behind references to them, one use after the other. -/
def promotions (t : SymbolTable) : List Use → List Nat
  | [] => []
  | use :: uses => (use.promoted? t).toList ++ promotions (use.apply t) uses

/-- A symbol is there and declared. -/
def Declared (t : SymbolTable) (i : Nat) : Prop :=
  ∃ s, t.symbols[i]? = some s ∧ s.isDeclared = true

variable {t u : SymbolTable} {token : Token} {i : Nat}

theorem Effect.declared {refused : Bool} {promoted : Option Nat}
    (h : t.Effect token refused promoted u) (hi : t.Declared i) : u.Declared i := by
  obtain ⟨s, hs, hdeclared⟩ := hi
  cases refused with
  | true => exact h.eq_of_refused ▸ ⟨s, hs, hdeclared⟩
  | false =>
    obtain ⟨s', hs', -, hstate⟩ := h.extended.symbols hs
    split at hstate
    · exact ⟨s', hs', hstate.2.1⟩
    · exact ⟨s', hs', hstate.1.trans hdeclared⟩

/-- What is promoted was not declared before and is so then. -/
theorem Effect.of_promoted {refused : Bool} (h : t.Effect token refused (some i) u) :
    ¬ t.Declared i ∧ u.Declared i := by
  cases h with
  | promote hs hunknown =>
    constructor
    · rintro ⟨x, hx, hdeclared⟩
      cases hs.symm.trans hx
      exact Bool.false_ne_true (hunknown.symm.trans hdeclared)
    · obtain ⟨s', hs', -, hstate⟩ := (extended_promote hs hunknown token).symbols hs
      rw [if_pos rfl] at hstate
      exact ⟨s', hs', hstate.2.1⟩

/-- A rollback does not take a declaration back. -/
theorem declared_rollback {mark : Checkpoint} (hi : t.Declared i) (hkept : i < mark.symbols) :
    (t.rollback mark).Declared i := by
  obtain ⟨s, hs, hdeclared⟩ := hi
  refine ⟨cutReferences mark.references s, ?_, hdeclared⟩
  rw [symbols_rollback, if_pos hkept, hs]
  rfl

theorem declared_use {use : Use} (hi : t.Declared i)
    (hkept : ∀ mark, use = .rollback mark → i < mark.symbols) : (use.apply t).Declared i := by
  cases use with
  | operate op => exact (effect_apply t op).declared hi
  | rollback mark => exact declared_rollback hi (hkept mark rfl)

/-- What one use promotes was not declared before it and is so behind it. -/
theorem of_promoted_use {use : Use} (h : use.promoted? t = some i) :
    ¬ t.Declared i ∧ (use.apply t).Declared i := by
  cases use with
  | operate op =>
    have heffect := effect_apply t op
    rw [show op.promoted? t = some i from h] at heffect
    exact heffect.of_promoted
  | rollback mark => cases h

/-- **A declared label is not promoted again** as long as it is there. -/
theorem notMem_promotions {uses : List Use} (hi : t.Declared i)
    (hkept : ∀ mark, .rollback mark ∈ uses → i < mark.symbols) : i ∉ t.promotions uses := by
  induction uses generalizing t with
  | nil => exact List.not_mem_nil
  | cons use uses ih =>
    intro hmem
    rcases List.mem_append.mp hmem with hnow | hlater
    · exact (of_promoted_use (Option.mem_toList.mp hnow)).1 hi
    · have hdeclared : (use.apply t).Declared i :=
        declared_use hi fun mark heq => hkept mark (heq ▸ List.mem_cons_self)
      exact ih hdeclared (fun mark hmark => hkept mark (List.mem_cons_of_mem _ hmark)) hlater

/-- As long as a label is there, it is promoted at most once. -/
theorem count_promotions_le {uses : List Use}
    (hkept : ∀ mark, .rollback mark ∈ uses → i < mark.symbols) :
    (t.promotions uses).count i ≤ 1 := by
  induction uses generalizing t with
  | nil => exact Nat.zero_le _
  | cons use uses ih =>
    have hlater : ∀ mark, .rollback mark ∈ uses → i < mark.symbols :=
      fun mark hmark => hkept mark (List.mem_cons_of_mem _ hmark)
    rw [promotions, List.count_append]
    cases hnow : use.promoted? t with
    | none => simpa using ih hlater
    | some j =>
      by_cases hj : j = i
      · subst hj
        have hnone := notMem_promotions (of_promoted_use hnow).2 hlater
        rw [List.count_eq_zero.mpr hnone]
        simp
      · simpa [hj] using ih hlater

/-- **Operations only make a table grow.** One that is refused leaves it as it is. Any other appends one
    reference, to its own token, and at most one symbol, and the symbols from before stay but for the
    declaration of a label that was only referred to, which comes to pass once in the life of the
    label. -/
theorem grows_only (t : SymbolTable) :
    (∀ op : Operation,
      if (op.answer t).isRefusal = true then op.apply t = t
      else t.Extended op.token (op.promoted? t) (op.apply t)) ∧
    ∀ (uses : List Use) (i : Nat), (∀ mark, .rollback mark ∈ uses → i < mark.symbols) →
      (t.promotions uses).count i ≤ 1 := by
  refine ⟨fun op => ?_, fun uses i hkept => count_promotions_le hkept⟩
  have heffect := effect_apply t op
  cases hrefused : (op.answer t).isRefusal with
  | true =>
    rw [hrefused] at heffect
    exact heffect.eq_of_refused
  | false =>
    rw [hrefused] at heffect
    exact heffect.extended

/-- A label is referred to, declared, and declared again behind a rollback that leaves its symbol. -/
theorem grows_only_label :
    let first : Token := ⟨.ident, "foo", .onLine 1 5 8 0, false⟩
    let second : Token := ⟨.ident, "Foo", .onLine 3 0 3 0, false⟩
    let third : Token := ⟨.ident, "FOO", .onLine 5 0 3 0, false⟩
    let uses : List Use := [.operate (.referenceLabel first), .operate (.declareLabel second),
      .rollback ⟨1, 1⟩, .operate (.declareLabel third)]
    empty.promotions uses = [0] ∧ (empty.promotions uses).count 0 ≤ 1 := by
  intro first second third uses
  have hkept : ∀ mark, .rollback mark ∈ uses → 0 < mark.symbols := by
    intro mark hmark
    simp only [uses, List.mem_cons, reduceCtorEq, Use.rollback.injEq, List.not_mem_nil, or_false,
      false_or] at hmark
    rw [hmark]
    exact Nat.one_pos
  exact ⟨by decide +kernel, (grows_only empty).2 uses 0 hkept⟩

end SymbolTable

end BasicCheck
