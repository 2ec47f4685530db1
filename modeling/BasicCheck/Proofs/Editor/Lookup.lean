import BasicCheck.Editor.Query
import BasicCheck.Proofs.Parse.References

/-!
# An editor's answers agree

Where a symbol is used and where it is defined are asked for at a position. As places and symbols of a
text tell the same, it does not matter at which of its uses a symbol is asked for: the uses cover the
position, each of them leads to the same answers, and the definition is one of them
(**`Workspace.lookups_agree`**). An editor keeps lines and columns in words of 32 bits; what is said
about a document therefore supposes that its places fit into them (`Addressable`).
-/

namespace BasicCheck.Editor

/-! ## 1. Places that fit into words -/

/-- The lines and columns of a text fit into words of 32 bits. -/
def Addressable (source : String) : Prop :=
  ∀ n, (Place.ofOffset source.toList n).line < UInt32.size ∧
    (Place.ofOffset source.toList n).column < UInt32.size

/-- A text with fewer characters than words of 32 bits can number is addressable. -/
theorem addressable_of_length_lt {source : String} (h : source.toList.length + 1 < UInt32.size) :
    Addressable source := by
  intro n
  have hline : (source.toList.take n).count '\n' ≤ source.toList.length :=
    Nat.le_trans List.count_le_length (List.length_take_le' _ _)
  have hcolumn : ((source.toList.take n).reverse.takeWhile (· != '\n')).length ≤
      source.toList.length := by
    refine Nat.le_trans (List.takeWhile_prefix _).length_le ?_
    rw [List.length_reverse]
    exact List.length_take_le' _ _
  constructor
  · show 1 + _ < _
    omega
  · show List.length _ < _
    omega

/-- A place of an addressable text is kept by an editor. -/
theorem Addressable.toPlace_ofPlace {source : String} (h : Addressable source) (n : Nat) :
    (Position.ofPlace (Place.ofOffset source.toList n)).toPlace =
      Place.ofOffset source.toList n := by
  obtain ⟨hline, hcolumn⟩ := h n
  refine Position.toPlace_ofPlace ?_ (Nat.le_of_lt hline) hcolumn
  show 0 < 1 + _
  omega

/-- So are the two ends of a reference. -/
theorem Addressable.toPlace_reference {source : String} {file : Nat} (h : Addressable source)
    {r : Reference} (hr : r ∈ (Procedure.ofText source file).symbols.references) :
    (Position.ofPlace r.token.span.start).toPlace = r.token.span.start ∧
      (Position.ofPlace r.token.span.stop).toPlace = r.token.span.stop := by
  obtain ⟨u, hu, -, hspan⟩ := Procedure.isNamed_of_mem_references hr
  obtain ⟨start, stop, hoffsets⟩ := Lexed.exists_offsets source file hu
  rw [hspan, hoffsets]
  exact ⟨h.toPlace_ofPlace start, h.toPlace_ofPlace stop⟩

/-- A position within a range, the end of which does not belong to it. -/
def Range.Contains (range : Range) (position : Position) : Prop :=
  range.start ≤ position ∧ ¬ range.stop ≤ position

namespace Workspace

/-! ## 2. Open documents -/

/-- Every open document is a text that has been read. -/
theorem exists_ofText (events : List Event) {uri : String} {document : Document}
    (h : (empty.run events).get? uri = some document) :
    ∃ text file, document.procedure = .ofText text file := by
  -- opening a document is the only event that puts one in place; an update opens it anew
  have hopened {w : Workspace} (hw : w.get? uri = some document →
      ∃ text file, document.procedure = .ofText text file) (uri' text : String) (version : Int)
      (h : (w.openDocument uri' text version).get? uri = some document) :
      ∃ text file, document.procedure = .ofText text file := by
    rw [get?_openDocument] at h
    split at h
    · cases h
      exact ⟨_, _, rfl⟩
    · exact hw h
  induction events using List.reverseRecOn with
  | nil => simp [run, empty, get?] at h
  | append_singleton events event ih =>
    rw [run, List.foldl_append] at h
    cases event with
    | «open» uri' text version => exact hopened ih uri' text version h
    | update uri' text version =>
      replace h : ((empty.run events).updateDocument uri' text version).get? uri = some document := h
      unfold updateDocument at h
      split at h
      · exact ih h
      · exact hopened ih uri' text version h
    | close uri' =>
      replace h : ((empty.run events).closeDocument uri').get? uri = some document := h
      rw [get?_closeDocument] at h
      split at h
      · cases h
      · exact ih h

/-- What is found at a position of an open document. -/
theorem symbolAt?_eq_some_iff {w : Workspace} {uri : String} {document : Document}
    (hget : w.get? uri = some document) (position : Position) (t : SymbolTable) (r : Reference)
    (s : Symbol) : w.symbolAt? uri position = some (t, r, s) ↔
      document.procedure.symbols = t ∧
        t.referenceAt? ⟨position.toPlace.line, position.toPlace.column, document.procedure.file⟩ =
          some r ∧ t.symbols[r.symbol]? = some s := by
  simp only [symbolAt?, hget, Option.bind_eq_bind, Option.bind_some, Option.bind_eq_some_iff,
    Option.pure_def, Option.some.injEq, Prod.mk.injEq]
  constructor
  · rintro ⟨q, hq, u, hu, rfl, rfl, rfl⟩
    exact ⟨rfl, hq, hu⟩
  · rintro ⟨rfl, hr, hs⟩
    exact ⟨r, hr, s, hs, rfl, rfl, rfl⟩

/-- A reference of an open document is found where its range starts. -/
theorem symbolAt?_start {w : Workspace} {uri : String} {document : Document} {text : String}
    {file : Nat} (hget : w.get? uri = some document) (htext : document.procedure = .ofText text file)
    (haddress : Addressable text) {r : Reference} {s : Symbol}
    (hr : r ∈ document.procedure.symbols.references)
    (hs : document.procedure.symbols.symbols[r.symbol]? = some s) :
    w.symbolAt? uri (Range.ofSpan r.token.span).start =
      some (document.procedure.symbols, r, s) := by
  rw [symbolAt?_eq_some_iff hget]
  rw [htext] at hr hs ⊢
  have hconsistent := Procedure.consistent_ofText text file
  have hcolumn : r.token.span.start.column < r.token.span.stop.column :=
    (hconsistent.onLine r hr).2
  refine ⟨rfl, (hconsistent.exact r hr _).mpr ?_, hs⟩
  rw [show (Range.ofSpan r.token.span).start.toPlace = r.token.span.start from
    (haddress.toPlace_reference hr).1]
  exact ⟨by simp [Procedure.ofText, Procedure.ofTokens], rfl, Nat.le_refl _, hcolumn⟩

/-! ## 3. Answers -/

/-- The answers about a position agree with each other. -/
structure Agrees (w : Workspace) (uri : String) (position : Position) : Prop where
  within : ∃ range ∈ w.references uri position, range.Contains position
  /-- Asked at any of the uses, the answers are the same. -/
  again : ∀ range ∈ w.references uri position,
    w.references uri range.start = w.references uri position ∧
      w.definition? uri range.start = w.definition? uri position
  defined : ∀ range, w.definition? uri position = some range → range ∈ w.references uri position

section Found

variable {w : Workspace} {uri : String} {position : Position} {t : SymbolTable} {r : Reference}
  {s : Symbol}

theorem references_eq (h : w.symbolAt? uri position = some (t, r, s)) :
    w.references uri position = (t.referencesOf s).map fun q => .ofSpan q.token.span := by
  simp only [references, h]

theorem definition?_eq (h : w.symbolAt? uri position = some (t, r, s)) :
    w.definition? uri position =
      if s.isDeclared then some (.ofSpan s.token.span) else none := by
  simp only [definition?, h, Option.bind_eq_bind, Option.bind_some]

/-- The answers agree at each position where a symbol is found. -/
theorem agrees_of_symbolAt? {document : Document} {text : String} {file : Nat}
    (hget : w.get? uri = some document) (htext : document.procedure = .ofText text file)
    (haddress : Addressable text) (h : w.symbolAt? uri position = some (t, r, s)) :
    w.Agrees uri position := by
  obtain ⟨rfl, hr, hs⟩ := (symbolAt?_eq_some_iff hget position t r s).mp h
  have hconsistent := Procedure.consistent_ofText text file
  have hsound := Procedure.sound_symbols text file
  rw [← htext] at hconsistent hsound
  have huses := SymbolTable.mem_referencesOf_iff hsound hs
  have hmem := SymbolTable.mem_of_referenceAt? hr
  constructor
  -- the reference that was found covers the position, and its range has the same ends
  case within =>
    rw [references_eq h]
    refine ⟨_, List.mem_map_of_mem ((huses r).mpr ⟨hmem, rfl⟩), ?_⟩
    have hcovered : position.toPlace.line = r.token.span.start.line ∧
        r.token.span.start.column ≤ position.toPlace.column ∧
        position.toPlace.column < r.token.span.stop.column :=
      ((hconsistent.exact r hmem _).mp hr).2
    obtain ⟨hsame, -⟩ := hconsistent.onLine r hmem
    obtain ⟨hfirst, hlast⟩ := haddress.toPlace_reference (htext ▸ hmem)
    constructor
    · show (Position.ofPlace r.token.span.start).toPlace ≤ position.toPlace
      rw [hfirst]
      exact Or.inr ⟨hcovered.1.symm, hcovered.2.1⟩
    · show ¬ (Position.ofPlace r.token.span.stop).toPlace ≤ position.toPlace
      rw [hlast, Place.le_iff]
      omega
  -- a reference to the same symbol finds the symbol again where it starts
  case again =>
    intro range hrange
    rw [references_eq h] at hrange
    obtain ⟨q, hq, rfl⟩ := List.mem_map.mp hrange
    obtain ⟨hqmem, hqsymbol⟩ := (huses q).mp hq
    rw [← hqsymbol] at hs
    have hagain := symbolAt?_start hget htext haddress hqmem hs
    rw [references_eq h, references_eq hagain, definition?_eq h, definition?_eq hagain]
    exact ⟨rfl, rfl⟩
  case defined =>
    intro range hrange
    rw [definition?_eq h] at hrange
    obtain ⟨q, hq, htoken⟩ := hconsistent.own s (Array.mem_of_getElem? hs)
    split at hrange
    · cases hrange
      rw [references_eq h, ← htoken]
      exact List.mem_map_of_mem hq
    · cases hrange

end Found

/-- **Places and symbols of every text tell the same**; so the answers about an addressable document
    agree wherever a symbol is used. -/
theorem lookups_agree :
    (∀ (source : String) (file : Nat), (Procedure.ofText source file).symbols.Consistent file) ∧
    ∀ (events : List Event) (uri : String) (position : Position),
      (∀ document, (empty.run events).get? uri = some document →
        Addressable document.procedure.source) →
      (empty.run events).references uri position ≠ [] →
      (empty.run events).Agrees uri position := by
  refine ⟨Procedure.consistent_ofText, fun events uri position haddress huses => ?_⟩
  cases hfound : (empty.run events).symbolAt? uri position with
  | none => exact absurd (by simp only [references, hfound]) huses
  | some found =>
    obtain ⟨t, r, s⟩ := found
    cases hget : (empty.run events).get? uri with
    | none => simp [symbolAt?, hget] at hfound
    | some document =>
      obtain ⟨text, file, htext⟩ := exists_ofText events hget
      have hsource : document.procedure.source = text := by
        simp [htext, Procedure.ofText, Procedure.ofTokens]
      exact agrees_of_symbolAt? hget htext (hsource ▸ haddress document hget) hfound

/-- A variable that is assigned on one line and read on the next. -/
theorem lookups_agree_assignment :
    let w := empty.run [.open "a" "x = 1\ny = x\n" 1]
    w.references "a" ⟨1, 4⟩ ≠ [] ∧ w.Agrees "a" ⟨1, 4⟩ := by
  have huses : (empty.run [.open "a" "x = 1\ny = x\n" 1]).references "a" ⟨1, 4⟩ ≠ [] := by
    decide +kernel
  refine ⟨huses, lookups_agree.2 _ _ _ (fun document h => ?_) huses⟩
  apply addressable_of_length_lt
  rw [run, List.foldl_cons, List.foldl_nil, apply, get?_openDocument, if_pos rfl] at h
  cases h
  simp [Procedure.ofText, Procedure.ofTokens, UInt32.size]

end Workspace

end BasicCheck.Editor
