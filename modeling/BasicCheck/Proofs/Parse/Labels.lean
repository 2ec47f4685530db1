import BasicCheck.Proofs.Label
import BasicCheck.Proofs.Parse.References
import BasicCheck.Proofs.Symbol.Labels

/-!
# Labels of a text

Labels are known twice: while a text is read, the table of symbols notes where each label is declared
and where it is referred to; from the body that results, the table of labels is made anew. What is
dropped after a fault is in the first table only. As every such fault is an error, the two agree about
a text without errors, and each label that is referred to is declared (**`Procedure.closed_ofText`**).

The symbols that are declared labels are followed along a run (**`Run.perm_labels`**), as are the keys
of what it refers to (**`Run.isSome_key`**).
-/

namespace BasicCheck

/-- The name that an identifier is looked up by, and its place. -/
def Ident.site (i : Ident) : String × Span := (i.folded, i.span)

namespace Parse

variable {o s : State} {trace : List Event} {e : Event} {read : List Token} {key : SymbolKey}

/-! ## 1. Events -/

theorem declaredBy_singleton (e : Event) : declaredBy [e] = e.declared?.toList := by
  cases h : e.declared? <;> simp [declaredBy, h]

namespace Event

/-- The labels that a table declares grow by those that an event declares. -/
theorem perm_labels (legal : e.Legal read s) :
    (e.act s).symbols.labels.Perm (s.symbols.labels ++ (declaredBy [e]).map Ident.site) := by
  rw [declaredBy_singleton]
  cases e with
  | refers kind id t =>
    rw [show (refers kind id t).declared?.toList.map Ident.site = [] from rfl, List.append_nil]
    exact .of_eq (SymbolTable.labels_addReference s.symbols id t)
  | creates meaning t =>
    refine .of_eq ((SymbolTable.labels_create s.symbols t meaning).trans (congrArg (_ ++ ·) ?_))
    cases meaning with
    | label declared => cases declared <;> rfl
    | _ => rfl
  | promotes id t =>
    obtain ⟨⟨symbol, hsymbol, hkey, hunknown⟩, -⟩ := legal
    exact SymbolTable.labels_promote hsymbol hkey hunknown
  | _ => exact .of_eq (List.append_nil _).symm

/-- A key that is known stays known. -/
theorem isSome_key_act (legal : e.Legal read s) (h : (s.symbols.keys[key]?).isSome) :
    ((e.act s).symbols.keys[key]?).isSome := by
  cases e with
  | creates meaning t =>
    show ((s.symbols.addSymbol t meaning).keys[key]?).isSome
    rw [SymbolTable.keys_addSymbol]
    split
    · rfl
    · exact h
  | _ => exact h

/-- What an event refers to is known behind it. -/
theorem isSome_key_of_key? (hs : s.Sound) (legal : e.Legal read s) (h : e.key? = some key) :
    ((e.act s).symbols.keys[key]?).isSome := by
  cases e with
  | refers kind id t =>
    cases h
    show (s.symbols.keys[(⟨kind, t.folded⟩ : SymbolKey)]?).isSome
    rw [legal.1]
    rfl
  | creates meaning t =>
    cases h
    show ((s.symbols.addSymbol t meaning).keys[(⟨meaning.kind, t.folded⟩ : SymbolKey)]?).isSome
    rw [SymbolTable.keys_addSymbol, if_pos rfl]
    rfl
  | promotes id t =>
    cases h
    obtain ⟨⟨symbol, hsymbol, hkey, -⟩, -⟩ := legal
    show (s.symbols.keys[(⟨.label, t.folded⟩ : SymbolKey)]?).isSome
    rw [hs.table.keys.mpr ⟨symbol, hsymbol, hkey⟩]
    rfl
  | _ => cases h

/-- What has been recorded stays recorded. -/
theorem mem_diagnostics_act {d : Diagnostic} (h : d ∈ s.diagnostics) :
    d ∈ (e.act s).diagnostics := by
  cases e with
  | reports other => exact Array.mem_push_of_mem other h
  | _ => exact h

end Event

/-! ## 2. Runs -/

namespace Run

/-- **The labels that a run declares are those that the table declares behind it.** -/
theorem perm_labels (ho : o.symbols.labels = []) (h : Run o trace s) :
    s.symbols.labels.Perm ((declaredBy trace).map Ident.site) := by
  induction h with
  | start => exact .of_eq ho
  | next _ legal ih =>
    rw [declaredBy_append, List.map_append]
    exact (Event.perm_labels legal).trans (ih.append_right _)

/-- **Whatever a run refers to is known behind it.** -/
theorem isSome_key (ho : o.Sound) (h : Run o trace s) (hnotes : Notes key trace) :
    (s.symbols.keys[key]?).isSome := by
  induction h with
  | start =>
    obtain ⟨e, he, -⟩ := hnotes
    exact absurd he List.not_mem_nil
  | next before legal ih =>
    obtain ⟨e, he, hkey⟩ := hnotes
    rcases List.mem_append.mp he with he | he
    · exact Event.isSome_key_act legal (ih ⟨e, he, hkey⟩)
    · cases List.mem_singleton.mp he
      exact Event.isSome_key_of_key? (before.sound ho) legal hkey

/-- What a run records is known behind it. -/
theorem mem_diagnostics (h : Run o trace s) {d : Diagnostic} (hd : .reports d ∈ trace) :
    d ∈ s.diagnostics := by
  induction h with
  | start => exact absurd hd List.not_mem_nil
  | next _ _ ih =>
    rcases List.mem_append.mp hd with hd | hd
    · exact Event.mem_diagnostics_act (ih hd)
    · cases List.mem_singleton.mp hd
      exact Array.mem_push_self

end Run

end Parse

/-! ## 3. Procedures -/

namespace Procedure

open Parse

/-- A name leads through both tables to one and the same label of the body. -/
def Resolves (p : Procedure) (name : String) : Prop :=
  ∃ st ∈ Block.all p.body, ∃ ident, st.label? = some ident ∧ ident.folded = Text.fold name ∧
    p.labelStatement? name = some st ∧
    ∃ s, p.symbols.lookup? .label name = some s ∧ s.isDeclared = true ∧ s.token.span = ident.span

/-- The two tables of a procedure agree about its labels, and all labels are there. -/
structure Closed (p : Procedure) : Prop where
  /-- No two statements declare one label. -/
  distinct : ((Block.labels p.body).map Ident.folded).Nodup
  names : ∀ name, name ∈ p.labels.names ↔ name ∈ (Block.labels p.body).map Ident.folded
  symbols : ∀ name, (∃ s ∈ p.symbols.symbols, s.key = ⟨.label, name⟩ ∧ s.isDeclared = true) ↔
    name ∈ (Block.labels p.body).map Ident.folded
  labels : ∀ ident ∈ Block.labels p.body, p.Resolves ident.name
  jumps : ∀ st ∈ Block.all p.body, ∀ target ∈ Reachability.jumpTargets st, p.Resolves target.name

variable {source : String} {file : Nat}

theorem clean_of_hasErrors (h : (ofText source file).hasErrors = false) {o : State}
    {trace : List Event} (hrun : Run o trace (readText source file).2) : Clean trace := by
  intro d hd
  rw [hasErrors, List.any_eq_false] at h
  have hmem : d ∈ (ofText source file).diagnostics := by
    have hfound := hrun.mem_diagnostics hd
    simpa only [ofText, ofTokens, readText, List.mem_mergeSort, Array.mem_toList_iff] using hfound
  exact Bool.eq_false_iff.mpr (h d hmem)

/-- The labels of the body are those that the table of symbols declares. -/
theorem perm_labels_ofText (h : (ofText source file).hasErrors = false) :
    (ofText source file).symbols.labels.Perm
      ((Block.labels (ofText source file).body).map Ident.site) := by
  obtain ⟨trace, hat, hlaid, -⟩ := exists_run_readText source file
  have hlabels := hlaid.accounts.labels (clean_of_hasErrors h hat.run)
  rw [symbols_ofText, body_ofText, Block.labels, hlabels]
  exact hat.run.perm_labels rfl

/-- What a statement jumps to is declared. -/
theorem mem_labels_of_mem_jumpTargets (h : (ofText source file).hasErrors = false) {st : Statement}
    (hst : st ∈ Block.all (ofText source file).body) {target : Ident}
    (htarget : target ∈ Reachability.jumpTargets st) :
    target.folded ∈ (ofText source file).symbols.labels.map Prod.fst := by
  obtain ⟨trace, hat, hlaid, hresolved⟩ := exists_run_readText source file
  have hunresolved := hresolved (clean_of_hasErrors h hat.run)
  rw [body_ofText] at hst
  have hknown := hat.run.isSome_key hat.sound (hlaid.accounts.jumps st hst target htarget)
  rw [← symbols_ofText] at hunresolved hknown
  exact (sound_symbols source file).mem_labels_of_key (owning_symbols source file) hunresolved hknown

/-- A label of the body is found through both tables. -/
theorem resolves_of_mem_labels (h : (ofText source file).hasErrors = false) {name : String}
    (hname : Text.fold name ∈ (Block.labels (ofText source file).body).map Ident.folded) :
    (ofText source file).Resolves name := by
  have htable : Text.fold name ∈ (ofText source file).labels.names := by
    rw [labels_ofText, LabelTable.mem_names_ofBody]
    exact hname
  obtain ⟨st, hst, hlabel⟩ := exists_labelStatement? (labels_ofText source file) htable
  obtain ⟨ident, span, rfl, hfolded⟩ := exists_of_labelStatement? (labels_ofText source file) hlabel
  have hsite : (Text.fold name, ident.span) ∈ (ofText source file).symbols.labels := by
    rw [(perm_labels_ofText h).mem_iff, ← hfolded]
    exact List.mem_map_of_mem (List.mem_filterMap.mpr ⟨_, hst, rfl⟩)
  exact ⟨_, hst, ident, rfl, hfolded, hlabel, (sound_symbols source file).exists_lookup? hsite⟩

/-- **The labels of a text without errors are closed.** -/
theorem closed_ofText (source : String) (file : Nat)
    (h : (ofText source file).hasErrors = false) : (ofText source file).Closed := by
  have hnames : ((ofText source file).symbols.labels.map Prod.fst).Perm
      ((Block.labels (ofText source file).body).map Ident.folded) := by
    have hperm := (perm_labels_ofText h).map Prod.fst
    rwa [List.map_map] at hperm
  constructor
  case distinct => exact hnames.nodup_iff.mp (sound_symbols source file).nodup_labels
  case names =>
    intro name
    rw [labels_ofText]
    exact LabelTable.mem_names_ofBody _ name
  case symbols =>
    intro name
    rw [← hnames.mem_iff]
    exact (SymbolTable.mem_names_labels_iff _ name).symm
  case labels =>
    intro ident hident
    exact resolves_of_mem_labels h (List.mem_map_of_mem hident)
  case jumps =>
    intro st hst target htarget
    refine resolves_of_mem_labels h ?_
    rw [← hnames.mem_iff]
    exact mem_labels_of_mem_jumpTargets h hst htarget

/-- A jump ahead, out of an arm. -/
theorem closed_ofText_goto :
    (ofText "if x then goto Done\nx = 1\ndone:\n" 0).hasErrors = false ∧
      (ofText "if x then goto Done\nx = 1\ndone:\n" 0).Closed := by
  have herrors : (ofText "if x then goto Done\nx = 1\ndone:\n" 0).hasErrors = false := by
    decide +kernel
  exact ⟨herrors, closed_ofText _ _ herrors⟩

end Procedure

end BasicCheck
