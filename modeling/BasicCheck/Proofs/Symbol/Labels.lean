import Mathlib.Data.List.Perm.Basic
import BasicCheck.Proofs.Symbol.Indexed

/-!
# Declared labels of a table

The labels that a table declares are read off its symbols (`SymbolTable.labels`). Each way in which a
table grows changes them in one way only: a further reference does not
(**`labels_addReference`**), a further symbol is one of them if it is a declared label
(**`labels_create`**), and a label that was only referred to becomes one (**`labels_promote`**). In a
sound table no name is declared twice (**`Sound.nodup_labels`**), and once nothing is unresolved, every
label that is known is declared (**`Sound.mem_labels_of_key`**).
-/

namespace BasicCheck

/-- The name and the place of the label that a symbol declares. -/
def Symbol.label? (s : Symbol) : Option (String × Span) :=
  match s.meaning with
  | .label true => some (Text.fold s.name, s.token.span)
  | _ => none

theorem Symbol.label?_eq_some_iff (s : Symbol) (name : String) (span : Span) :
    s.label? = some (name, span) ↔
      s.key = ⟨.label, name⟩ ∧ s.isDeclared = true ∧ s.token.span = span := by
  obtain ⟨id, text, token, meaning, references⟩ := s
  simp only [label?, key, kind, isDeclared, SymbolKey.mk.injEq]
  cases meaning with
  | label declared => cases declared <;> simp [Meaning.kind]
  | _ => simp [Meaning.kind]

/-- A label that is only referred to declares nothing. -/
theorem Symbol.label?_eq_none {s : Symbol} (h : s.isDeclared = false) : s.label? = none := by
  rw [Option.eq_none_iff_forall_ne_some]
  intro label hlabel
  obtain ⟨-, hdeclared, -⟩ := (s.label?_eq_some_iff label.1 label.2).mp hlabel
  rw [h] at hdeclared
  cases hdeclared

namespace SymbolTable

variable {t : SymbolTable} {id : Nat} {token : Token}

/-- The labels that a table declares, each with its name and its place. -/
def labels (t : SymbolTable) : List (String × Span) := t.symbols.toList.filterMap Symbol.label?

theorem mem_labels_iff (t : SymbolTable) (name : String) (span : Span) :
    (name, span) ∈ t.labels ↔
      ∃ s ∈ t.symbols, s.key = ⟨.label, name⟩ ∧ s.isDeclared = true ∧ s.token.span = span := by
  simp only [labels, List.mem_filterMap, Array.mem_toList_iff, Symbol.label?_eq_some_iff]

/-- The names of the labels that a table declares. -/
theorem mem_names_labels_iff (t : SymbolTable) (name : String) :
    name ∈ t.labels.map Prod.fst ↔
      ∃ s ∈ t.symbols, s.key = ⟨.label, name⟩ ∧ s.isDeclared = true := by
  rw [List.mem_map]
  constructor
  · rintro ⟨⟨name, span⟩, hlabel, rfl⟩
    obtain ⟨s, hs, hkey, hdeclared, -⟩ := (mem_labels_iff t name span).mp hlabel
    exact ⟨s, hs, hkey, hdeclared⟩
  · rintro ⟨s, hs, hkey, hdeclared⟩
    exact ⟨_, (mem_labels_iff t name _).mpr ⟨s, hs, hkey, hdeclared, rfl⟩, rfl⟩

/-! ## 1. Tables that grow -/

theorem labels_addReference (t : SymbolTable) (id : Nat) (token : Token) :
    (t.addReference id token).labels = t.labels := by
  have hsame : (t.addReference id token).symbols.toList.map Symbol.label? =
      t.symbols.toList.map Symbol.label? := by
    apply List.ext_getElem?
    intro i
    rw [List.getElem?_map, List.getElem?_map, Array.getElem?_toList, Array.getElem?_toList,
      symbols_addReference]
    split
    · rw [Option.map_map]
      rfl
    · rfl
  have hall := congrArg (List.filterMap fun label => label) hsame
  rwa [List.filterMap_map, List.filterMap_map] at hall

theorem labels_create (t : SymbolTable) (token : Token) (meaning : Meaning) :
    (t.create token meaning).labels = t.labels ++
      (Symbol.label? ⟨t.symbols.size, token.text, token, meaning, #[]⟩).toList := by
  rw [create_eq, labels_addReference, labels, labels, symbols_addSymbol, Array.toList_push,
    List.filterMap_append]
  refine congrArg (_ ++ ·) ?_
  cases h : Symbol.label? ⟨t.symbols.size, token.text, token, meaning, #[]⟩ <;> simp [h]

theorem labels_promote {s : Symbol} (hs : t.symbols[id]? = some s)
    (hkey : s.key = ⟨.label, token.folded⟩) (hunknown : s.isDeclared = false) :
    ((t.declareAt id token).addReference id token).labels.Perm
      (t.labels ++ [(token.folded, token.span)]) := by
  obtain ⟨hid, helem⟩ := List.getElem?_eq_some_iff.mp (Array.getElem?_toList.trans hs)
  have hnew : ({ s with token, meaning := .label true } : Symbol).label? =
      some (token.folded, token.span) := by
    have hname : Text.fold s.name = token.folded := congrArg SymbolKey.name hkey
    rw [← hname]
    rfl
  -- as the symbol was no declared label, the labels are those of the other symbols
  have hold : t.labels.Perm ((t.symbols.toList.eraseIdx id).filterMap Symbol.label?) := by
    have hperm := (List.getElem_cons_eraseIdx_perm hid).symm.filterMap Symbol.label?
    rwa [List.filterMap_cons_none (helem ▸ Symbol.label?_eq_none hunknown)] at hperm
  rw [labels_addReference]
  calc (t.declareAt id token).labels
      = (t.symbols.toList.set id { s with token, meaning := .label true }).filterMap
          Symbol.label? := by
        rw [labels, declareAt, Array.toList_modify, List.modify_eq_set_getElem?,
          Array.getElem?_toList, hs]
        rfl
    List.Perm _ (({ s with token, meaning := .label true } ::
          t.symbols.toList.eraseIdx id).filterMap Symbol.label?) :=
        (List.set_perm_cons_eraseIdx hid _).filterMap _
    _ = (token.folded, token.span) :: (t.symbols.toList.eraseIdx id).filterMap Symbol.label? :=
        List.filterMap_cons_some hnew
    List.Perm _ ((token.folded, token.span) :: t.labels) := hold.symm.cons _
    List.Perm _ (t.labels ++ [(token.folded, token.span)]) := (List.perm_append_singleton _ _).symm

/-! ## 2. Sound tables -/

/-- **No label of a sound table is declared twice.** -/
theorem Sound.nodup_labels (h : t.Sound) : (t.labels.map Prod.fst).Nodup := by
  have hkeys : t.symbols.toList.Pairwise fun a b => a.key ≠ b.key := by
    rw [List.pairwise_iff_getElem]
    intro i j hi hj hlt heq
    have hfirst := h.keys.mpr ⟨_, Array.getElem?_toList ▸ List.getElem?_eq_getElem hi, heq⟩
    have hsecond := h.keys.mpr ⟨_, Array.getElem?_toList ▸ List.getElem?_eq_getElem hj, rfl⟩
    rw [hsecond] at hfirst
    cases hfirst
    exact Nat.lt_irrefl _ hlt
  rw [List.Nodup, List.pairwise_map, labels, List.pairwise_filterMap]
  refine hkeys.imp fun {a b} hab x hx y hy hxy => hab ?_
  obtain ⟨hxkey, -⟩ := (a.label?_eq_some_iff x.1 x.2).mp hx
  obtain ⟨hykey, -⟩ := (b.label?_eq_some_iff y.1 y.2).mp hy
  rw [hxkey, hykey, hxy]

/-- A label is found by its name. -/
theorem Sound.exists_lookup? (h : t.Sound) {name : String} {span : Span}
    (hlabel : (Text.fold name, span) ∈ t.labels) :
    ∃ s, t.lookup? .label name = some s ∧ s.isDeclared = true ∧ s.token.span = span := by
  obtain ⟨s, hs, hkey, hdeclared, hspan⟩ := (mem_labels_iff t _ span).mp hlabel
  obtain ⟨i, hi⟩ := Array.mem_iff_getElem?.mp hs
  refine ⟨s, ?_, hdeclared, hspan⟩
  rw [lookup?, find?, h.keys.mpr ⟨s, hi, hkey⟩]
  exact hi

/-- A reference to a label that was never declared is unresolved. -/
theorem mem_unresolvedLabels {s : Symbol} (hs : s ∈ t.symbols) (hkind : s.kind = .label)
    (hunknown : s.isDeclared = false) {r : Reference} (hr : r ∈ t.referencesOf s) :
    (r.token.text, r.token.span) ∈ t.unresolvedLabels := by
  rw [unresolvedLabels, List.mem_mergeSort, List.mem_flatMap]
  refine ⟨s, Array.mem_toList_iff.mpr hs, ?_⟩
  rw [if_pos (by rw [hkind, hunknown]; rfl)]
  exact List.mem_map_of_mem hr

/-- **Once nothing is unresolved, every label that is known is declared.** -/
theorem Sound.mem_labels_of_key (h : t.Sound) (howning : t.Owning)
    (hresolved : t.unresolvedLabels = []) {name : String}
    (hname : (t.keys[(⟨.label, name⟩ : SymbolKey)]?).isSome) :
    name ∈ t.labels.map Prod.fst := by
  obtain ⟨i, hi⟩ := Option.isSome_iff_exists.mp hname
  obtain ⟨s, hs, hkey⟩ := h.keys.mp hi
  have hdeclared : s.isDeclared = true := by
    cases hknown : s.isDeclared with
    | true => rfl
    | false =>
      have hunresolved := mem_unresolvedLabels (Array.mem_of_getElem? hs)
        (congrArg SymbolKey.kind hkey) hknown (howning.mem_referencesOf h hs)
      rw [hresolved] at hunresolved
      exact absurd hunresolved List.not_mem_nil
  exact (mem_names_labels_iff t name).mpr ⟨s, Array.mem_of_getElem? hs, hkey, hdeclared⟩

end SymbolTable

end BasicCheck
