import BasicCheck.Proofs.Extent.Tree
import BasicCheck.Proofs.Grammar.Procedure

/-!
# Where a text was read

Whatever an expression holds was read where the expression was (**`Derives.of_mem_all`**), and whatever
a block holds was read somewhere on the way (**`Written.exists_statement`**), at some depth of loops
(`Along`). So each statement of a text has a state in front of it and one behind it, between the start
and the end of the text (`Reading`, **`Procedure.exists_reading`**), and what is known of the names that
it holds can be followed up to the end.
-/

namespace BasicCheck

namespace Grammar

open Parse

variable {o s u v : State} {e : Expr} {i name : Ident} {row : Expr} {col : Option Expr} {span : Span}

/-! ## 1. Within expressions -/

/-- **Whatever an expression holds** was read where it was. -/
theorem Derives.of_mem_all (h : Derives e s u) : ∀ x ∈ e.all, Derives x s u := by
  -- on the derivation: what is read of a part is carried over what is read in front of it and behind it
  induction h with
  | within before _ behind ih => exact fun x hx => .within before (ih x hx) behind
  | «variable» names => exact Expr.forall_mem_all.mpr ⟨.variable names, nofun⟩
  | number text finds => exact Expr.forall_mem_all.mpr ⟨.number text finds, nofun⟩
  | string value finds => exact Expr.forall_mem_all.mpr ⟨.string value finds, nofun⟩
  | binary op hleft hright ihleft ihright =>
    refine Expr.forall_mem_all.mpr ⟨.binary op hleft hright, List.forall_mem_cons.mpr ⟨ihleft, ?_⟩⟩
    exact List.forall_mem_singleton.mpr ihright
  | negate sign hinner ih =>
    exact Expr.forall_mem_all.mpr ⟨.negate sign hinner, List.forall_mem_singleton.mpr ih⟩
  | arrayIndex hbase hne hfew hindexes ihbase ih =>
    obtain ⟨index, hindex⟩ := List.exists_mem_of_ne_nil _ hne
    have hbehind := (hindexes index hindex).onward
    refine Expr.forall_mem_all.mpr ⟨.arrayIndex hbase hne hfew hindexes, List.forall_mem_cons.mpr ?_⟩
    exact ⟨fun x hx => (ihbase x hx).before hbehind,
      fun e he x hx => (ih e he x hx).after hbase.onward⟩
  | substring hbase hne hfew hindexes ihbase ih =>
    obtain ⟨index, hindex⟩ := List.exists_mem_of_ne_nil _ hne
    have hbehind := (hindexes index hindex).onward
    refine Expr.forall_mem_all.mpr ⟨.substring hbase hne hfew hindexes, List.forall_mem_cons.mpr ?_⟩
    exact ⟨fun x hx => (ihbase x hx).before hbehind,
      fun e he x hx => (ih e he x hx).after hbase.onward⟩
  | matrixIndex element hrow hcol ihrow ihcol =>
    refine Expr.forall_mem_all.mpr ⟨.matrixIndex element hrow hcol, List.forall_mem_cons.mpr ?_⟩
    exact ⟨fun x hx => (ihrow x hx).after element.onward,
      fun e he x hx => (ihcol e (Option.mem_toList.mp he) x hx).after element.onward⟩
  | call called onward hargs ih =>
    refine Expr.forall_mem_all.mpr ⟨.call called onward hargs, fun e he x hx => ?_⟩
    exact (ih e he x hx).after called.onward
  | conditional finds hcond hthen helse ihcond ihthen ihelse =>
    refine Expr.forall_mem_all.mpr ⟨.conditional finds hcond hthen helse, ?_⟩
    have hfront := finds.onward
    refine List.forall_mem_cons.mpr ⟨fun x hx => (ihcond x hx).after hfront, ?_⟩
    refine List.forall_mem_cons.mpr ⟨fun x hx => (ihthen x hx).after hfront, ?_⟩
    exact List.forall_mem_singleton.mpr fun x hx => (ihelse x hx).after hfront
  | property hobject finds hrole ih =>
    refine Expr.forall_mem_all.mpr ⟨.property hobject finds hrole, ?_⟩
    exact List.forall_mem_singleton.mpr fun x hx => (ih x hx).before finds.onward
  | method hobject finds hrole hargs ih ihargs =>
    refine Expr.forall_mem_all.mpr ⟨.method hobject finds hrole hargs, List.forall_mem_cons.mpr ?_⟩
    exact ⟨fun x hx => (ih x hx).before finds.onward,
      fun e he x hx => (ihargs e he x hx).after hobject.onward⟩

/-- An element of a matrix was read from its name on, which is that of a matrix there. -/
theorem Derives.exists_element (h : Derives (.matrixIndex name row col span) s u)
    (hs : s.symbols.Whole) : ∃ m, Onward s m ∧ m.current.kind.IsWord ∧ IsElement name m m.current ∧
      Derives (.matrixIndex name row col span) m u := by
  generalize he : Expr.matrixIndex name row col span = e at h ⊢
  induction h with
  | within before _ behind ih =>
    obtain ⟨m, hm, hword, helement, hderives⟩ := ih (before.symbols hs).1 he
    exact ⟨m, before.trans hm, hword, helement, hderives.before behind⟩
  | matrixIndex element hrow hcol =>
    cases he
    obtain ⟨m, t, hm, rfl, hword, hbehind, helement⟩ := element.element
    have hread : Meets (IsElement name) m _ := ⟨m, m.current, .refl m, rfl, hword, hbehind, helement⟩
    refine ⟨m, hm, hword, helement, .matrixIndex ⟨⟨hread.onward, ?_, fun _ => ?_⟩, hread⟩ hrow hcol⟩
    · exact (hread.mono fun _ _ h => h.1 : Finds name.span m _).stands
    · exact element.refers hs
  | _ => cases he

/-- The name of a call was read with it. -/
theorem Derives.called {args : List Expr} (h : Derives (.call name args span) s u) :
    Called name s u := by
  generalize he : Expr.call name args span = e at h
  induction h with
  | within before _ behind ih => exact .after before ((ih he).before behind)
  | call called onward =>
    cases he
    exact called.before onward
  | _ => cases he

/-- **A name that stands for a value** in an expression was noted where the expression was read. -/
theorem Derives.names (h : Derives e s u) (hi : i ∈ e.idents) (hvalue : i.role.isValue) :
    Names i s u := by
  obtain ⟨x, hx, hname⟩ := Expr.mem_idents_iff.mp hi
  replace h := h.of_mem_all x hx
  clear hx
  induction h with
  | within before _ behind ih => exact .after before ((ih hname).before behind)
  | «variable» names =>
    obtain rfl := List.mem_singleton.mp hname
    exact names
  | matrixIndex element hrow =>
    obtain rfl := List.mem_singleton.mp hname
    exact element.toNames.before hrow.onward
  | call called =>
    obtain rfl := List.mem_singleton.mp hname
    obtain ⟨m, t, -, -, -, -, -, hrole, -⟩ := called
    rw [hrole] at hvalue
    cases hvalue
  | property _ _ hrole | method _ _ hrole =>
    obtain rfl := List.mem_singleton.mp hname
    rw [hrole] at hvalue
    cases hvalue
  | number | string | binary | negate | arrayIndex | substring | conditional =>
    exact absurd hname List.not_mem_nil

/-! ## 2. At any depth -/

/-- One state lies onward of another, at whatever depth of loops the two are. -/
structure Along (s u : State) : Prop where
  onward : Onward { s with loopDepth := u.loopDepth } u

/-- The depth of loops can be any as long as it stays the same. -/
theorem Past.atDepth (h : Past s u) (depth : Nat) :
    Past { s with loopDepth := depth } { u with loopDepth := depth } := by
  obtain ⟨read, hread⟩ := h.reads
  refine ⟨h.eof, rfl, ⟨read, hread.tokens, hread.last, hread.split⟩, fun hs => ?_, h.faults,
    h.symbols, h.begun⟩
  have hu := h.regular ⟨hs.ended, hs.half⟩
  exact ⟨hu.ended, hu.half⟩

theorem Onward.atDepth (h : Onward s u) (depth : Nat) :
    Onward { s with loopDepth := depth } { u with loopDepth := depth } :=
  ⟨h.toPast.atDepth depth, h.stems⟩

namespace Along

theorem of_onward (h : Onward s u) : Along s u := ⟨h.atDepth u.loopDepth⟩

theorem refl (s : State) : Along s s := of_onward (.refl s)

theorem trans (h : Along s u) (g : Along u v) : Along s v :=
  ⟨(h.onward.atDepth v.loopDepth).trans g.onward⟩

theorem enter (s : State) : Along s s.enter := ⟨.refl _⟩

theorem leave (s : State) : Along s s.leave := ⟨.refl _⟩

theorem regular (h : Along s u) (hs : s.Regular) : u.Regular :=
  h.onward.regular ⟨hs.ended, hs.half⟩

theorem orderly (h : Along s u) (hs : Orderly s) : Orderly u := by
  have hstart : Orderly { s with loopDepth := u.loopDepth } :=
    ⟨⟨hs.regular.ended, hs.regular.half⟩, hs.order, hs.measured⟩
  exact hstart.past h.onward.toPast

theorem whole (h : Along s u) (hs : s.symbols.Whole) : u.symbols.Whole := (h.onward.symbols hs).1

theorem clean (h : Along s u) (hu : u.Clean) : s.Clean := h.onward.clean hu

theorem fixes (h : Along s u) (hs : s.symbols.Whole) : s.symbols.Fixes u.symbols :=
  h.onward.fixes hs

theorem exists_stems (h : Along s u) (hs : s.symbols.Whole) : ∃ read,
    s.rest.tokens = read ++ u.rest.tokens ∧ s.symbols.Stems s.last.toList read u.symbols := by
  obtain ⟨read, hread⟩ := h.onward.reads
  exact ⟨read, hread.tokens, h.onward.stems hs hread.tokens⟩

end Along

namespace Sequel

variable {k : State}

theorem after (h : Onward o s) (g : Sequel e k s u) : Sequel e k o u where
  toPast := h.toPast.trans g.toPast
  fixes ho := (h.fixes ho).trans (g.fixes (h.symbols ho).1)
  matrices ho read htokens n b hb hn hmatrix := by
    obtain ⟨front, hfront⟩ := h.reads
    obtain ⟨more, hmore⟩ := g.reads
    have hs : s.symbols.Whole := (h.symbols ho).1
    rw [(hfront.trans hmore).eq htokens]
    by_cases hlt : n < s.symbols.symbols.size
    · obtain ⟨b', hb', -, hmatrix', htoken, -⟩ := (g.fixes hs).isMatrix_of_lt hb hlt hmatrix
      have hbound := (h.stems ho hfront.tokens).bound hb' hn (Symbol.isBound_of_isMatrix hmatrix')
      rw [htoken]
      exact Or.inl (List.mem_append_left _ hbound.1)
    · exact (g.matrices hs hmore.tokens hb (Nat.le_of_not_lt hlt) hmatrix).imp_left
        (List.mem_append_right _)

/-- What comes of an expression further on, at whatever depth of loops. -/
theorem along (h : Sequel e k s u) (g : Along u v) :
    Sequel e k { s with loopDepth := v.loopDepth } v :=
  .before (u := { u with loopDepth := v.loopDepth })
    ⟨h.toPast.atDepth v.loopDepth, h.fixes, h.matrices⟩ g.onward

end Sequel

/-- **Every statement of a node** was read somewhere on the way. -/
theorem Written.exists_statement {n : Node} (h : Written n s u) : ∀ x ∈ n.all, ∃ k m,
    Along s k ∧ Written (.statement x) k m ∧ Along m u := by
  have hself {st : Statement} {s u : State} (h : Written (.statement st) s u) : ∃ k m,
      Along s k ∧ Written (.statement st) k m ∧ Along m u := ⟨s, u, .refl s, h, .refl u⟩
  -- a statement within what is read on the way was read on the longer way
  have hwithin {x : Statement} {o s u v : State} (before : Along o s) (behind : Along u v)
      (h : ∃ k m, Along s k ∧ Written (.statement x) k m ∧ Along m u) : ∃ k m,
        Along o k ∧ Written (.statement x) k m ∧ Along m v := by
    obtain ⟨k, m, hk, hst, hm⟩ := h
    exact ⟨k, m, before.trans hk, hst, hm.trans behind⟩
  induction h with
  | action opens told => exact Statement.forall_mem_within.mpr ⟨hself (.action opens told), nofun⟩
  | decision opens judged needed filled arms ih =>
    exact Statement.forall_mem_within.mpr ⟨hself (.decision opens judged needed filled arms), ih⟩
  | counted opens has named closed inner ih =>
    exact Statement.forall_mem_within.mpr
      ⟨hself (.counted opens has named closed inner), List.forall_mem_singleton.mpr ih⟩
  | loop opens inner ih =>
    exact Statement.forall_mem_within.mpr
      ⟨hself (.loop opens inner), List.forall_mem_singleton.mpr ih⟩
  | choice onward opens arms ih =>
    exact Statement.forall_mem_within.mpr
      ⟨hself (.choice onward opens arms), List.forall_mem_map.mpr ih⟩
  | arm before _ _ _ behind ih | nested before _ behind ih =>
    exact fun x hx => hwithin (.of_onward before) (.of_onward behind) (ih x hx)
  | @looped _ _ s u _ before _ behind ih =>
    intro x hx
    exact hwithin ((Along.of_onward before).trans (.enter s))
      ((Along.leave u).trans (.of_onward behind)) (ih x hx)
  | nil => exact nofun
  | snoc front last _ _ gap ih ih' | ended front last _ gap ih ih' =>
    have hgap := Along.of_onward gap.onward
    refine Block.forall_mem_all_concat (fun x hx => ?_) fun x hx => ?_
    · exact hwithin (.refl _) ((Along.of_onward last.onward).trans hgap) (ih x hx)
    · exact hwithin (.of_onward front.onward) hgap (ih' x hx)
  | closed _ ih => exact ih

end Grammar

/-! ## 3. Texts -/

namespace Procedure

open Parse Grammar

variable {source : String} {file : Nat} {v : State}

/-- A state behind everything that was read of a text. -/
structure Reading (source : String) (file : Nat) (v : State) : Prop where
  onward : Onward (opening source file) v
  symbols : v.symbols = (ofText source file).symbols
  clean : (ofText source file).hasErrors = false → v.Clean
  parameters : Lists (opening source file) (ofText source file).header.parameters v
  statements : ∀ st ∈ Block.all (ofText source file).body, ∃ k m,
    Along (opening source file) k ∧ Written (.statement st) k m ∧ Along m v

/-- **Every text is read to its end.** -/
theorem exists_reading (source : String) (file : Nat) : ∃ v, Reading source file v := by
  obtain ⟨m, v, hbody⟩ := exists_written source file
  have hbehind := hbody.written.onward
  refine ⟨v, ⟨hbody.parameters.onward.trans hbehind, ?_, fun h => ?_, ?_, fun st hst => ?_⟩⟩
  · rw [symbols_ofText, hbody.symbols]
  · exact hbody.behind.clean (clean_readText h)
  · exact Has.before hbody.parameters hbehind
  · obtain ⟨k, m', hk, hwritten, hm⟩ := hbody.written.exists_statement st hst
    exact ⟨k, m', (Along.of_onward hbody.parameters.onward).trans hk, hwritten, hm⟩

/-- What has come of the names of a text. -/
theorem Reading.exists_stems (h : Reading source file v) : ∃ read,
    (Lexed.ofText source file).primary = read ++ v.rest.tokens ∧
      SymbolTable.empty.Stems [] read (ofText source file).symbols := by
  obtain ⟨read, hread⟩ := h.onward.reads
  exact ⟨read, hread.tokens, h.symbols ▸ h.onward.stems SymbolTable.whole_empty hread.tokens⟩

end Procedure

end BasicCheck
