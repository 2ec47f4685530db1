import Mathlib.Data.List.Induction
import Mathlib.Data.List.Perm.Basic
import BasicCheck.Proofs.Symbol.Growth
import BasicCheck.Proofs.Symbol.Indexed

/-!
# Labels are resolved whatever comes first

A label may be referred to before it is declared. How a table stands after any references to labels
and declarations of them (`SymbolTable.resolve`) depends on the first declaration of each name alone
(**`declaration?_resolve`**), not on the references that came before it: that declaration is the one
that is accepted, the label has its token, and what remains unresolved is the references to names
without any (**`perm_unresolvedLabels_resolve`**). So the order of the calls does not matter for what
remains (**`labels_resolve`**).
-/

namespace BasicCheck

/-! ## 1. Calls -/

/-- What a procedure does with a label: it refers to it, or declares it. -/
inductive LabelCall where
  | reference (token : Token)
  | declaration (token : Token)

namespace LabelCall

/-- The operation on the table. -/
def operation : LabelCall → Operation
  | reference token => .referenceLabel token
  | declaration token => .declareLabel token

/-- The token of a declaration of a name in small letters. -/
def declares? (name : String) : LabelCall → Option Token
  | reference _ => none
  | declaration token => if token.folded = name then some token else none

/-- The token of a reference. -/
def refers? : LabelCall → Option Token
  | reference token => some token
  | declaration _ => none

end LabelCall

namespace SymbolTable

/-- The table behind several calls, starting from the empty one. -/
def resolve (calls : List LabelCall) : SymbolTable :=
  calls.foldl (fun t call => call.operation.apply t) .empty

/-- The token with which a name in small letters is declared as a label, if it is. -/
def declaration? (t : SymbolTable) (name : String) : Option Token :=
  (t.keys[(⟨.label, name⟩ : SymbolKey)]?).bind fun id =>
    (t.symbols[id]?).bind fun s => if s.isDeclared = true then some s.token else none

/-- Every reference is one to the label that its token names. -/
def OnlyLabels (t : SymbolTable) : Prop :=
  ∀ r ∈ t.references, t.keys[(⟨.label, r.token.folded⟩ : SymbolKey)]? = some r.symbol

variable {t : SymbolTable} {token : Token} {name : String} {id : Nat}

theorem resolve_append_singleton (calls : List LabelCall) (call : LabelCall) :
    resolve (calls ++ [call]) = call.operation.apply (resolve calls) := by
  rw [resolve, List.foldl_append]
  rfl

theorem sound_resolve (calls : List LabelCall) : (resolve calls).Sound := by
  induction calls using List.reverseRecOn with
  | nil => exact sound_empty
  | append_singleton calls call ih =>
    rw [resolve_append_singleton]
    exact ih.grow (ih.grows_apply _)

/-! ## 2. Declarations -/

theorem declaration?_eq {s : Symbol}
    (hkey : t.keys[(⟨.label, name⟩ : SymbolKey)]? = some id) (hs : t.symbols[id]? = some s) :
    t.declaration? name = if s.isDeclared = true then some s.token else none := by
  rw [declaration?, hkey, Option.bind_some, hs, Option.bind_some]

theorem declaration?_addReference (t : SymbolTable) (id : Nat) (token : Token) (name : String) :
    (t.addReference id token).declaration? name = t.declaration? name := by
  unfold declaration?
  refine congrArg (Option.bind _) (funext fun i => ?_)
  rw [symbols_addReference]
  split
  · rw [Option.bind_map]
    rfl
  · rfl

/-- A further label is found under its own name. -/
theorem keys_addSymbol_label (t : SymbolTable) (token : Token) (declared : Bool) (name : String) :
    (t.addSymbol token (.label declared)).keys[(⟨.label, name⟩ : SymbolKey)]? =
      if token.folded = name then some t.symbols.size
      else t.keys[(⟨.label, name⟩ : SymbolKey)]? := by
  rw [keys_addSymbol]
  simp only [Meaning.kind, SymbolKey.mk.injEq, true_and]

/-- A further label hides no other one, for its key was free. -/
theorem Sound.declaration?_create (h : t.Sound) (declared : Bool)
    (hfree : t.keys[(⟨.label, token.folded⟩ : SymbolKey)]? = none) :
    (t.create token (.label declared)).declaration? name =
      (t.declaration? name).or
        (if token.folded = name ∧ declared = true then some token else none) := by
  rw [create_eq, declaration?_addReference]
  have hinsert := keys_addSymbol_label t token declared name
  by_cases hname : token.folded = name
  · subst hname
    rw [if_pos rfl] at hinsert
    have hsymbol : (t.addSymbol token (.label declared)).symbols[t.symbols.size]? =
        some ⟨t.symbols.size, token.text, token, .label declared, #[]⟩ := by
      rw [symbols_addSymbol, Array.getElem?_push, if_pos rfl]
    have hnone : t.declaration? token.folded = none := by rw [declaration?, hfree, Option.bind_none]
    rw [declaration?_eq hinsert hsymbol, hnone]
    cases declared <;> simp [Symbol.isDeclared]
  · rw [if_neg hname] at hinsert
    rw [if_neg (fun hboth => hname hboth.1), Option.or_none, declaration?, declaration?, hinsert]
    cases hkey : t.keys[(⟨.label, name⟩ : SymbolKey)]? with
    | none => rfl
    | some i =>
      have hlt := h.lt_of_key hkey
      rw [Option.bind_some, Option.bind_some, symbols_addSymbol, Array.getElem?_push,
        if_neg (Nat.ne_of_lt hlt)]

/-- The declaration of a label concerns no other one. -/
theorem Sound.declaration?_promote (h : t.Sound) {s : Symbol}
    (hkey : t.keys[(⟨.label, token.folded⟩ : SymbolKey)]? = some id)
    (hs : t.symbols[id]? = some s) (hunknown : s.isDeclared = false) :
    ((t.declareAt id token).addReference id token).declaration? name =
      (t.declaration? name).or (if token.folded = name then some token else none) := by
  rw [declaration?_addReference]
  by_cases hname : token.folded = name
  · subst hname
    have hsymbol : (t.declareAt id token).symbols[id]? =
        some { s with token, meaning := .label true } := by
      rw [symbols_declareAt, if_pos rfl, hs]
      rfl
    have hkey' : (t.declareAt id token).keys[(⟨.label, token.folded⟩ : SymbolKey)]? = some id := hkey
    rw [declaration?_eq hkey' hsymbol, declaration?_eq hkey hs, hunknown, if_pos rfl]
    rfl
  · rw [if_neg hname, Option.or_none]
    unfold declaration?
    cases hother : t.keys[(⟨.label, name⟩ : SymbolKey)]? with
    | none =>
      rw [show (t.declareAt id token).keys[(⟨.label, name⟩ : SymbolKey)]? = none from hother]
      rfl
    | some i =>
      rw [show (t.declareAt id token).keys[(⟨.label, name⟩ : SymbolKey)]? = some i from hother]
      -- the numbers of two keys are apart
      have hne : id ≠ i := by
        rintro rfl
        obtain ⟨a, ha, hakey⟩ := h.keys.mp hkey
        obtain ⟨b, hb, hbkey⟩ := h.keys.mp hother
        cases ha.symm.trans hb
        exact hname (congrArg SymbolKey.name (hakey.symm.trans hbkey))
      rw [Option.bind_some, Option.bind_some, symbols_declareAt, if_neg hne]

/-- A declaration is accepted if the name is not declared yet. -/
theorem Sound.declareLabel_accepted (h : t.Sound) (token : Token) :
    (t.declareLabel token).1 = true ↔ t.declaration? token.folded = none := by
  unfold declareLabel
  split
  · rename_i hfree
    have hkey : t.keys[(⟨.label, token.folded⟩ : SymbolKey)]? = none := hfree
    rw [declaration?, hkey, Option.bind_none]
    exact iff_of_true rfl rfl
  · rename_i id hid
    have hkey : t.keys[(⟨.label, token.folded⟩ : SymbolKey)]? = some id := hid
    obtain ⟨s, hs, -⟩ := h.keys.mp hkey
    rw [declaration?_eq hkey hs, hs, Option.map_some]
    cases hknown : s.isDeclared <;> simp

/-- **What a call declares is declared behind it** unless it was so before. -/
theorem Sound.declaration?_apply (h : t.Sound) (call : LabelCall) (name : String) :
    (call.operation.apply t).declaration? name =
      (t.declaration? name).or (call.declares? name) := by
  cases call with
  | reference token =>
    show (t.referenceOrCreate token (.label false)).2.declaration? name = _
    rw [LabelCall.declares?, Option.or_none]
    unfold referenceOrCreate
    split
    · exact declaration?_addReference t _ token name
    · rename_i hfree
      rw [h.declaration?_create false hfree, if_neg (fun hboth => Bool.false_ne_true hboth.2),
        Option.or_none]
  | declaration token =>
    show (t.declareLabel token).2.declaration? name =
      (t.declaration? name).or (if token.folded = name then some token else none)
    unfold declareLabel
    split
    · rename_i hfree
      rw [h.declaration?_create true hfree]
      simp
    · rename_i id hid
      have hkey : t.keys[(⟨.label, token.folded⟩ : SymbolKey)]? = some id := hid
      obtain ⟨s, hs, -⟩ := h.keys.mp hkey
      rw [hs, Option.map_some]
      cases hknown : s.isDeclared with
      | false => exact h.declaration?_promote hkey hs hknown
      | true =>
        -- the name is declared, so that nothing is added to it
        by_cases hname : token.folded = name
        · subst hname
          rw [declaration?_eq hkey hs, hknown]
          rfl
        · rw [if_neg hname, Option.or_none]

/-- **A name is declared with the token of its first declaration.** -/
theorem declaration?_resolve (calls : List LabelCall) (name : String) :
    (resolve calls).declaration? name = calls.findSome? (·.declares? name) := by
  induction calls using List.reverseRecOn with
  | nil => simp [resolve, declaration?, empty]
  | append_singleton calls call ih =>
    rw [resolve_append_singleton, (sound_resolve calls).declaration?_apply, ih,
      List.findSome?_append]
    simp

theorem lookup?_declared_iff (t : SymbolTable) (name : String) (token : Token) :
    (∃ s, t.lookup? .label name = some s ∧ s.isDeclared = true ∧ s.token = token) ↔
      t.declaration? (Text.fold name) = some token := by
  rw [declaration?, lookup?, find?]
  constructor
  · rintro ⟨s, hs, hdeclared, rfl⟩
    obtain ⟨id, hid, hget⟩ := Option.bind_eq_some_iff.mp hs
    rw [hid, Option.bind_some, hget, Option.bind_some, if_pos hdeclared]
  · intro h
    obtain ⟨id, hid, hget⟩ := Option.bind_eq_some_iff.mp h
    obtain ⟨s, hs, htoken⟩ := Option.bind_eq_some_iff.mp hget
    split at htoken
    · rename_i hdeclared
      exact ⟨s, by rw [hid, Option.bind_some, hs], hdeclared, Option.some.inj htoken⟩
    · cases htoken

/-! ## 3. References -/

theorem onlyLabels_empty : empty.OnlyLabels := fun r hr => absurd hr (Array.not_mem_empty r)

theorem OnlyLabels.addReference (h : t.OnlyLabels)
    (hkey : t.keys[(⟨.label, token.folded⟩ : SymbolKey)]? = some id) :
    (t.addReference id token).OnlyLabels := by
  intro r hr
  rw [references_addReference] at hr
  rcases Array.mem_push.mp hr with hold | rfl
  · exact h r hold
  · exact hkey

theorem OnlyLabels.create (h : t.OnlyLabels) (declared : Bool)
    (hfree : t.keys[(⟨.label, token.folded⟩ : SymbolKey)]? = none) :
    (t.create token (.label declared)).OnlyLabels := by
  have hadd : (t.addSymbol token (.label declared)).OnlyLabels := by
    intro r hr
    have hold := h r hr
    have hne : token.folded ≠ r.token.folded := by
      intro heq
      rw [← heq, hfree] at hold
      cases hold
    rw [keys_addSymbol_label, if_neg hne, hold]
  rw [create_eq]
  exact hadd.addReference (by rw [keys_addSymbol_label, if_pos rfl])

theorem OnlyLabels.apply (h : t.OnlyLabels) (call : LabelCall) :
    (call.operation.apply t).OnlyLabels := by
  cases call with
  | reference token =>
    show (t.referenceOrCreate token (.label false)).2.OnlyLabels
    unfold referenceOrCreate
    split
    · rename_i id hid
      exact h.addReference hid
    · rename_i hfree
      exact h.create false hfree
  | declaration token =>
    show (t.declareLabel token).2.OnlyLabels
    unfold declareLabel
    split
    · rename_i hfree
      exact h.create true hfree
    · rename_i id hid
      split
      · have hdeclare : (t.declareAt id token).OnlyLabels := h
        exact hdeclare.addReference hid
      · exact h

theorem onlyLabels_resolve (calls : List LabelCall) : (resolve calls).OnlyLabels := by
  induction calls using List.reverseRecOn with
  | nil => exact onlyLabels_empty
  | append_singleton calls call ih =>
    rw [resolve_append_singleton]
    exact ih.apply call

/-- What a call adds to the references: a reference does so in any case, a declaration at most one to
    the name that it declares. -/
theorem tokens_apply (t : SymbolTable) (call : LabelCall) :
    (call.operation.apply t).references.toList.map (·.token) =
        t.references.toList.map (·.token) ++ call.refers?.toList ∨
      ∃ token, call = .declaration token ∧
        (call.operation.apply t).references.toList.map (·.token) =
          t.references.toList.map (·.token) ++ [token] := by
  have heffect := effect_apply t call.operation
  cases hrefused : (call.operation.answer t).isRefusal with
  | true =>
    rw [hrefused] at heffect
    cases call with
    | reference token => cases hrefused
    | declaration token =>
      rw [heffect.eq_of_refused]
      exact Or.inl (List.append_nil _).symm
  | false =>
    rw [hrefused] at heffect
    obtain ⟨id, hpush⟩ := heffect.extended.references
    rw [hpush, Array.toList_push, List.map_append]
    cases call with
    | reference token => exact Or.inl rfl
    | declaration token => exact Or.inr ⟨token, rfl, rfl⟩

/-- **Names that no call declares are noted where they are referred to**, in the order of the calls. -/
theorem filter_tokens_resolve (p : String → Bool) (calls : List LabelCall)
    (hp : ∀ token, .declaration token ∈ calls → p token.folded = false) :
    ((resolve calls).references.toList.map (·.token)).filter (p ·.folded) =
      (calls.filterMap (·.refers?)).filter (p ·.folded) := by
  induction calls using List.reverseRecOn with
  | nil => rfl
  | append_singleton calls call ih =>
    have hbefore := ih fun token hmem => hp token (List.mem_append_left _ hmem)
    rw [resolve_append_singleton, List.filterMap_append, List.filter_append, ← hbefore]
    rcases tokens_apply (resolve calls) call with hmap | ⟨token, rfl, hmap⟩
    · have hone : [call].filterMap (·.refers?) = call.refers?.toList := by
        cases hrefers : call.refers? <;> simp [hrefers]
      rw [hmap, List.filter_append, hone]
    · have hnot : p token.folded = false :=
        hp token (List.mem_append_right _ List.mem_cons_self)
      rw [hmap, List.filter_append]
      simp [LabelCall.refers?, hnot]

/-! ## 4. What remains unresolved -/

/-- What satisfies one of two conditions that exclude each other. -/
theorem filter_or_perm {α : Type} {p q : α → Bool} {l : List α}
    (happart : ∀ a ∈ l, p a = true → q a = false) :
    (l.filter fun a => p a || q a).Perm (l.filter p ++ l.filter q) := by
  have hsplit := List.filter_append_perm p (l.filter fun a => p a || q a)
  have hleft : (l.filter fun a => p a || q a).filter p = l.filter p := by
    rw [List.filter_filter]
    refine List.filter_congr fun a _ => ?_
    cases p a <;> simp
  have hright : ((l.filter fun a => p a || q a).filter fun a => !p a) = l.filter q := by
    rw [List.filter_filter]
    refine List.filter_congr fun a ha => ?_
    cases hpa : p a
    · simp
    · simp [happart a ha hpa]
  rw [hleft, hright] at hsplit
  exact hsplit.symm

/-- Collecting the references of some symbols, one symbol after the other, gives just those that point
    to one of them. -/
theorem flatMap_filter_perm (p : Symbol → Bool) (rs : List Reference) {symbols : List Symbol}
    (hids : (symbols.map Symbol.id).Nodup) :
    (symbols.flatMap fun s => if p s = true then rs.filter (·.symbol == s.id) else []).Perm
      (rs.filter fun r => symbols.any fun s => p s && r.symbol == s.id) := by
  induction symbols with
  | nil => simp
  | cons s symbols ih =>
    rw [List.map_cons, List.nodup_cons] at hids
    obtain ⟨hnot, hrest⟩ := hids
    have happart : ∀ r ∈ rs, (p s && r.symbol == s.id) = true →
        (symbols.any fun s => p s && r.symbol == s.id) = false := by
      intro r _ hr
      have hid : r.symbol = s.id := eq_of_beq (Bool.and_eq_true_iff.mp hr).2
      rw [List.any_eq_false]
      intro x hx hboth
      have hxid : r.symbol = x.id := eq_of_beq (Bool.and_eq_true_iff.mp hboth).2
      exact hnot (List.mem_map.mpr ⟨x, hx, hxid.symm.trans hid⟩)
    have hhead : (if p s = true then rs.filter (·.symbol == s.id) else []) =
        rs.filter fun r => p s && r.symbol == s.id := by
      cases p s <;> simp
    rw [List.flatMap_cons, hhead]
    simp only [List.any_cons]
    exact ((ih hrest).append_left _).trans (filter_or_perm happart).symm

/-- The number of a symbol is told by where it stands, so no number is given twice. -/
theorem Sound.nodup_ids (h : t.Sound) : (t.symbols.toList.map Symbol.id).Nodup := by
  rw [List.Nodup, List.pairwise_iff_getElem]
  intro i j hi hj hij heq
  simp only [List.getElem_map, Array.getElem_toList] at heq
  simp only [List.length_map, Array.length_toList] at hi hj
  have hfirst := h.ids (Array.getElem?_eq_getElem hi)
  have hsecond := h.ids (Array.getElem?_eq_getElem hj)
  omega

/-- The references of the labels without a declaration, one label after the other. -/
theorem Sound.flatMap_referencesOf (h : t.Sound) :
    (t.symbols.toList.flatMap fun s =>
      if (s.kind == .label && !s.isDeclared) = true then
        (t.referencesOf s).map fun r => (r.token.text, r.token.span)
      else []) =
    (t.symbols.toList.flatMap fun s =>
      if (s.kind == .label && !s.isDeclared) = true then
        t.references.toList.filter (·.symbol == s.id)
      else []).map fun r => (r.token.text, r.token.span) := by
  rw [List.map_flatMap]
  refine List.flatMap_congr fun s hs => ?_
  obtain ⟨i, hi⟩ := Array.mem_iff_getElem?.mp (Array.mem_toList_iff.mp hs)
  rw [referencesOf_eq h hi, h.ids hi]
  split <;> rfl

/-- A reference points to a label without a declaration just if the name of its token has none. -/
theorem Sound.any_undeclared (h : t.Sound) (honly : t.OnlyLabels) {r : Reference}
    (hr : r ∈ t.references) :
    (t.symbols.toList.any fun s => (s.kind == .label && !s.isDeclared) && r.symbol == s.id) =
      (t.declaration? r.token.folded).isNone := by
  -- the table has one symbol for the name, and the reference points to that one
  have hkey := honly r hr
  obtain ⟨s, hs, hskey⟩ := h.keys.mp hkey
  have hkind : s.kind = .label := congrArg SymbolKey.kind hskey
  rw [declaration?_eq hkey hs, Bool.eq_iff_iff, List.any_eq_true]
  constructor
  · rintro ⟨x, hx, hcond⟩
    obtain ⟨i, hi⟩ := Array.mem_iff_getElem?.mp (Array.mem_toList_iff.mp hx)
    obtain ⟨hstate, hid⟩ := Bool.and_eq_true_iff.mp hcond
    have hsymbol : r.symbol = i := (eq_of_beq hid).trans (h.ids hi)
    rw [hsymbol, hi] at hs
    cases hs
    have hunknown : s.isDeclared = false := by simpa using (Bool.and_eq_true_iff.mp hstate).2
    rw [hunknown]
    rfl
  · intro hnone
    have hunknown : s.isDeclared = false := by
      cases hknown : s.isDeclared with
      | false => rfl
      | true =>
        rw [hknown] at hnone
        cases hnone
    refine ⟨s, Array.mem_toList_iff.mpr (Array.mem_of_getElem? hs), ?_⟩
    rw [hkind, hunknown, h.ids hs]
    simp

/-- What is not resolved is the references that point to a label without a declaration. -/
theorem Sound.perm_unresolvedLabels (h : t.Sound) (honly : t.OnlyLabels) :
    t.unresolvedLabels.Perm
      (((t.references.toList.map (·.token)).filter fun token =>
        (t.declaration? token.folded).isNone).map fun token => (token.text, token.span)) := by
  have hpoints : (t.references.toList.filter fun r =>
      t.symbols.toList.any fun s => (s.kind == .label && !s.isDeclared) && r.symbol == s.id) =
      t.references.toList.filter fun r => (t.declaration? r.token.folded).isNone :=
    List.filter_congr fun r hr => h.any_undeclared honly (Array.mem_toList_iff.mp hr)
  have hmap : (((t.references.toList.map (·.token)).filter fun token =>
        (t.declaration? token.folded).isNone).map fun token => (token.text, token.span)) =
      (t.references.toList.filter fun r => (t.declaration? r.token.folded).isNone).map
        fun r => (r.token.text, r.token.span) := by
    rw [List.filter_map, List.map_map]
    rfl
  rw [hmap, ← hpoints]
  refine (List.mergeSort_perm _ _).trans ?_
  rw [h.flatMap_referencesOf]
  exact (flatMap_filter_perm _ _ h.nodup_ids).map _

/-- **What remains unresolved is the references to names that no call declares**, each as often as it
    was made. -/
theorem perm_unresolvedLabels_resolve (calls : List LabelCall) :
    (resolve calls).unresolvedLabels.Perm
      (((calls.filterMap (·.refers?)).filter fun token =>
        (calls.findSome? (·.declares? token.folded)).isNone).map fun token =>
          (token.text, token.span)) := by
  have hperm := (sound_resolve calls).perm_unresolvedLabels (onlyLabels_resolve calls)
  simp only [declaration?_resolve] at hperm
  have hdeclared : ∀ token, .declaration token ∈ calls →
      (calls.findSome? (·.declares? token.folded)).isNone = false := by
    intro token hmem
    rw [Option.isNone_eq_false_iff, List.findSome?_isSome_iff]
    exact ⟨_, hmem, by simp [LabelCall.declares?]⟩
  rwa [filter_tokens_resolve (fun name => (calls.findSome? (·.declares? name)).isNone) calls
    hdeclared] at hperm

theorem pairwise_unresolvedLabels (t : SymbolTable) :
    t.unresolvedLabels.Pairwise fun a b => a.2.start ≤ b.2.start := by
  let le (a b : String × Span) : Bool := decide (a.2.start ≤ b.2.start)
  have htrans : ∀ a b c, le a b = true → le b c = true → le a c = true :=
    fun _ _ _ hab hbc =>
      decide_eq_true (Place.le_trans (of_decide_eq_true hab) (of_decide_eq_true hbc))
  have htotal : ∀ a b, (le a b || le b a) = true := by
    intro a b
    rw [Bool.or_eq_true]
    exact (Place.le_total a.2.start b.2.start).imp (decide_eq_true ·) (decide_eq_true ·)
  exact (List.pairwise_mergeSort htrans htotal _).imp fun h => of_decide_eq_true h

/-- How labels are resolved by calls that start from the empty table. -/
structure LabelsResolve (calls : List LabelCall) : Prop where
  /-- The first declaration of each name is accepted, and no other one. -/
  accepted : ∀ before token behind, calls = before ++ .declaration token :: behind →
    (((resolve before).declareLabel token).1 = true ↔
      ∀ call ∈ before, call.declares? token.folded = none)
  /-- A label is declared in the end if some call declares it, and has the token of the first one. -/
  declared : ∀ name token, (∃ s, (resolve calls).lookup? .label name = some s ∧
      s.isDeclared = true ∧ s.token = token) ↔
    calls.findSome? (·.declares? (Text.fold name)) = some token
  /-- The references to names that no call declares are unresolved. -/
  unresolved : (resolve calls).unresolvedLabels.Perm
    (((calls.filterMap (·.refers?)).filter fun token =>
      calls.all fun call => (call.declares? token.folded).isNone).map fun token =>
        (token.text, token.span))
  /-- They are listed in the order of the text. -/
  sorted : (resolve calls).unresolvedLabels.Pairwise fun a b => a.2.start ≤ b.2.start
  /-- They are the same in whatever order the calls are made. -/
  order : ∀ calls', calls.Perm calls' →
    ((resolve calls').unresolvedLabels.map fun found => (Text.fold found.1, found.2)).Perm
      ((resolve calls).unresolvedLabels.map fun found => (Text.fold found.1, found.2))

/-- **Labels are resolved whatever comes first.** -/
theorem labels_resolve (calls : List LabelCall) : LabelsResolve calls := by
  have hundeclared (calls : List LabelCall) (name : String) :
      (calls.findSome? (·.declares? name)).isNone =
        calls.all fun call => (call.declares? name).isNone := by
    rw [Bool.eq_iff_iff, Option.isNone_iff_eq_none, List.findSome?_eq_none_iff, List.all_eq_true]
    exact forall₂_congr fun call _ => Option.isNone_iff_eq_none.symm
  have hunresolved (calls : List LabelCall) : (resolve calls).unresolvedLabels.Perm
      (((calls.filterMap (·.refers?)).filter fun token =>
        calls.all fun call => (call.declares? token.folded).isNone).map fun token =>
          (token.text, token.span)) := by
    simpa only [hundeclared] using perm_unresolvedLabels_resolve calls
  refine ⟨?_, fun name token => ?_, hunresolved calls, pairwise_unresolvedLabels _, ?_⟩
  · rintro before token behind -
    rw [(sound_resolve before).declareLabel_accepted, declaration?_resolve,
      List.findSome?_eq_none_iff]
  · rw [lookup?_declared_iff, declaration?_resolve]
  · intro calls' hperm
    have hall : (fun token : Token => calls.all fun call => (call.declares? token.folded).isNone) =
        fun token => calls'.all fun call => (call.declares? token.folded).isNone :=
      funext fun token => hperm.all_eq
    refine (((hunresolved calls').trans ?_).trans (hunresolved calls).symm).map _
    rw [hall]
    exact (((hperm.filterMap _).filter _).map _).symm

end SymbolTable

end BasicCheck
