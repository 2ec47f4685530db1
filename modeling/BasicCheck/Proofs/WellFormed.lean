import BasicCheck.Proofs.Expression.Tree
import BasicCheck.Proofs.Grammar.Procedure

/-!
# Trees of texts without errors are well formed

What a statement has to fulfil on its own (`Statement.Fits`) and what a whole tree has to fulfil
(`Block.WellFormed`): decisions that ask for an arm have one, arms hold something, columns and indexes
are given as often as they may be, conditions of loops stand within loops, a `next` closes the loop
that it names, and `mat` is about matrices. Each of these is checked at another place of the grammar,
some only by an error that is recorded; **`Procedure.wellFormed`** puts together that a text without
errors fulfils them all.
-/

namespace BasicCheck

/-! ## 1. What is asked for -/

/-- Indexes in angle brackets are one to three, those in square brackets one or two. -/
def Expr.Sized : Expr → Prop
  | arrayIndex _ indexes _ => 1 ≤ indexes.length ∧ indexes.length ≤ 3
  | substring _ indexes _ => 1 ≤ indexes.length ∧ indexes.length ≤ 2
  | _ => True

/-- Decisions that ask for a `then` or an `else`. -/
def Decision.NeedsArm : Decision → Prop
  | condition _ | read _ _ _ _ _ | matRead _ _ _ | readNext _ _ | .open _ _ _ | lock _ _
  | locate _ _ _ _ _ | osRead _ _ | osOpen _ _ => True
  | write _ _ _ _ _ | matWrite _ _ _ | delete _ _ | unlock _ _ => False

/-- Two arms one of which, if there is any, holds more than lone semicolons. -/
def ArmsHold (thenArm elseArm : Option Block) : Prop :=
  thenArm.isSome ∨ elseArm.isSome →
    ∃ arm ∈ thenArm.toList ++ elseArm.toList, ∃ st ∈ arm, st.isEmpty = false

/-- A `while` or an `until`. -/
def Statement.isLoopCondition : Statement → Bool
  | action (.loopCondition _ _) _ => true
  | _ => false

/-- Among some statements, conditions of loops stand within loops. -/
def ConditionsPlaced (statements : List Statement) : Prop :=
  ∀ st ∈ statements, st.isLoopCondition →
    ∃ around ∈ statements, around.isLoop ∧ st ∈ around.within

/-- A tree of statements in which everything is as it should be, at every depth. -/
structure Block.WellFormed (body : Block) (table : SymbolTable) : Prop where
  /-- What has to be answered is answered. -/
  armed : ∀ {test thenArm elseArm span}, .decision test thenArm elseArm span ∈ Block.all body →
    test.NeedsArm → thenArm.isSome ∨ elseArm.isSome
  /-- Arms hold something. -/
  held : ∀ {test thenArm elseArm span}, .decision test thenArm elseArm span ∈ Block.all body →
    ArmsHold thenArm elseArm
  /-- Columns are given to the forms that are about columns, and to no others. -/
  columns : ∀ {test thenArm elseArm span}, .decision test thenArm elseArm span ∈ Block.all body →
    test.ColumnFits
  /-- Indexes are given as often as they may be, in every expression. -/
  sized : ∀ st ∈ Block.all body, ∀ e ∈ st.expressions, ∀ x ∈ e.all, x.Sized
  /-- A `while` or an `until` stands within a loop. -/
  placed : ConditionsPlaced (Block.all body)
  /-- The name behind a `next` is that of the variable of its loop. -/
  closed : ∀ {counter inner closing span}, .counted counter inner closing span ∈ Block.all body →
    ∀ i ∈ closing, i.folded = counter.name.folded
  /-- All elements at once are those of a matrix. -/
  matrices : ∀ {name value span}, .action (.mat name value) span ∈ Block.all body →
    table.isMatrix name.name
  /-- The lists of jumps and declarations are not empty. -/
  filled : ∀ {form span}, .action form span ∈ Block.all body → form.Filled

/-- A statement in which everything is as it should be, whatever stands around it. -/
def Statement.Fits (table : SymbolTable) : Statement → Prop
  | action form _ => form.Filled ∧ ∀ name value, form = .mat name value → table.isMatrix name.name
  | decision test thenArm elseArm _ =>
    (test.NeedsArm → thenArm.isSome ∨ elseArm.isSome) ∧ ArmsHold thenArm elseArm ∧ test.ColumnFits
  | counted counter _ closing _ => ∀ i ∈ closing, i.folded = counter.name.folded
  | loop _ _ | choice _ _ => True

theorem Decision.armsOptional_of_needsArm {test : Decision} (h : test.NeedsArm) :
    Parse.armsOptional test = false := by
  cases test <;> first | rfl | cases h

theorem armsHold_of_holdsStatement {thenArm elseArm : Option Block}
    (h : thenArm.isSome ∨ elseArm.isSome →
      Parse.holdsStatement thenArm ∨ Parse.holdsStatement elseArm) : ArmsHold thenArm elseArm := by
  have hone {arm : Option Block} (h : Parse.holdsStatement arm) :
      ∃ body ∈ arm.toList, ∃ st ∈ body, st.isEmpty = false := by
    cases arm with
    | none => cases h
    | some body =>
      obtain ⟨st, hst, hempty⟩ := List.any_eq_true.mp h
      exact ⟨body, List.mem_singleton_self _, st, hst, by simpa using hempty⟩
  intro hsome
  rcases h hsome with hthen | helse
  · obtain ⟨body, hbody, hholds⟩ := hone hthen
    exact ⟨body, List.mem_append_left _ hbody, hholds⟩
  · obtain ⟨body, hbody, hholds⟩ := hone helse
    exact ⟨body, List.mem_append_right _ hbody, hholds⟩

theorem ConditionsPlaced.append {front behind : List Statement} (h : ConditionsPlaced front)
    (g : ConditionsPlaced behind) : ConditionsPlaced (front ++ behind) := by
  intro st hst hcondition
  rcases List.mem_append.mp hst with hin | hin
  · obtain ⟨around, haround, hloop⟩ := h st hin hcondition
    exact ⟨around, List.mem_append_left _ haround, hloop⟩
  · obtain ⟨around, haround, hloop⟩ := g st hin hcondition
    exact ⟨around, List.mem_append_right _ haround, hloop⟩

/-- A statement that is no condition itself. -/
theorem ConditionsPlaced.of_blocks {st : Statement} (hst : st.isLoopCondition = false)
    (h : ∀ body ∈ st.blocks, ConditionsPlaced (Block.all body)) :
    ConditionsPlaced (st :: st.within) := by
  intro x hx hcondition
  rcases List.mem_cons.mp hx with rfl | hx
  · rw [hst] at hcondition
    cases hcondition
  · rw [Statement.within_eq] at hx ⊢
    obtain ⟨body, hbody, hin⟩ := List.mem_flatMap.mp hx
    obtain ⟨around, haround, hloop⟩ := h body hbody x hin hcondition
    refine ⟨around, List.mem_cons_of_mem _ ?_, hloop⟩
    exact List.mem_flatMap.mpr ⟨body, hbody, haround⟩

/-- A loop is what all conditions in it stand in. -/
theorem ConditionsPlaced.of_isLoop {st : Statement} (hst : st.isLoop) :
    ConditionsPlaced (st :: st.within) := by
  intro x hx hcondition
  rcases List.mem_cons.mp hx with rfl | hx
  · cases x with
    | counted | loop => cases hcondition
    | _ => cases hst
  · exact ⟨st, List.mem_cons_self, hst, hx⟩

namespace Grammar

open Parse

variable {o s u v : State}

/-! ## 2. Expressions -/

/-- Without an error no expression has too many indexes, at every depth. -/
theorem Derives.sized {e : Expr} (h : Derives e s u) (hu : u.Clean) : ∀ x ∈ e.all, x.Sized := by
  have hlength {indexes : List Expr} (hne : indexes ≠ []) : 1 ≤ indexes.length :=
    List.length_pos_iff.mpr hne
  -- on the derivation; the lack of an error is handed down to what was read earlier
  induction h with
  | within _ _ behind ih => exact ih (behind.clean hu)
  | «variable» | number | string => exact Expr.forall_mem_all.mpr ⟨trivial, nofun⟩
  | binary op _ _ ihleft ihright =>
    refine Expr.forall_mem_all.mpr ⟨trivial, List.forall_mem_cons.mpr ⟨ihleft hu, ?_⟩⟩
    exact List.forall_mem_singleton.mpr (ihright hu)
  | negate _ _ ih => exact Expr.forall_mem_all.mpr ⟨trivial, List.forall_mem_singleton.mpr (ih hu)⟩
  | arrayIndex _ hne hfew hindexes ihbase ih =>
    obtain ⟨e, he⟩ := List.exists_mem_of_ne_nil _ hne
    refine Expr.forall_mem_all.mpr ⟨⟨hlength hne, hfew hu⟩, List.forall_mem_cons.mpr ⟨?_, ?_⟩⟩
    · exact ihbase ((hindexes e he).past.clean hu)
    · exact fun e he => ih e he hu
  | substring _ hne hfew hindexes ihbase ih =>
    obtain ⟨e, he⟩ := List.exists_mem_of_ne_nil _ hne
    refine Expr.forall_mem_all.mpr ⟨⟨hlength hne, hfew hu⟩, List.forall_mem_cons.mpr ⟨?_, ?_⟩⟩
    · exact ihbase ((hindexes e he).past.clean hu)
    · exact fun e he => ih e he hu
  | matrixIndex _ _ _ ihrow ihcol =>
    refine Expr.forall_mem_all.mpr ⟨trivial, List.forall_mem_cons.mpr ⟨ihrow hu, fun e he => ?_⟩⟩
    exact ihcol e (Option.mem_toList.mp he) hu
  | call _ _ _ ih => exact Expr.forall_mem_all.mpr ⟨trivial, fun e he => ih e he hu⟩
  | conditional _ _ _ _ ihcond ihthen ihelse =>
    refine Expr.forall_mem_all.mpr ⟨trivial, List.forall_mem_cons.mpr ⟨ihcond hu, ?_⟩⟩
    exact List.forall_mem_cons.mpr ⟨ihthen hu, List.forall_mem_singleton.mpr (ihelse hu)⟩
  | property _ stands _ ih =>
    refine Expr.forall_mem_all.mpr ⟨trivial, List.forall_mem_singleton.mpr ?_⟩
    exact ih (stands.past.clean hu)
  | method _ stands _ _ ih ihargs =>
    refine Expr.forall_mem_all.mpr ⟨trivial, List.forall_mem_cons.mpr ⟨?_, ?_⟩⟩
    · exact ih (stands.past.clean hu)
    · exact fun e he => ihargs e he hu

theorem Held.sized {e : Expr} (h : Held e s u) (hu : u.Clean) : ∀ x ∈ e.all, x.Sized := by
  obtain ⟨k, m, -, hderives, hsequel⟩ := h
  exact hderives.sized (hsequel.clean hu)

theorem Has.sized {es : List Expr} {is : List Ident} (h : Has s es is u) (hu : u.Clean) :
    ∀ e ∈ es, ∀ x ∈ e.all, x.Sized :=
  fun e he => (h.expressions e he).sized hu

/-! ## 3. Statements -/

/-- Before a state every name that comes is a text of at least one character, and the table of
    symbols is whole. -/
structure Sane (s : State) : Prop where
  named : ∀ t ∈ s.rest.tokens, t.kind = .ident → t.text ≠ ""
  whole : s.symbols.Whole

theorem Sane.past (h : Sane s) (g : Past s u) : Sane u :=
  ⟨fun t ht => h.named t (g.suffix.subset ht), (g.symbols h.whole).1⟩

theorem Sane.enter (h : Sane s) : Sane s.enter := ⟨h.named, h.whole⟩

/-- **Whatever is written fits**, at every depth, if there is no error. -/
theorem Written.fits {n : Node} (h : Written n s u) (hs : Sane s) (hu : u.Clean)
    {table : SymbolTable} (htable : u.symbols.Follows table) :
    ∀ st ∈ n.all, st.Fits table ∧ ∀ e ∈ st.expressions, ∀ x ∈ e.all, x.Sized := by
  -- on the derivation; the lack of an error is handed down to what was read earlier
  induction h with
  | action _ told =>
    refine Statement.forall_mem_within.mpr ⟨⟨⟨told.filled, ?_⟩, told.has.sized hu⟩, nofun⟩
    intro name value hform
    exact htable.isMatrix (hs.past told.has.past).whole (told.matrix name value hform hu hs.whole)
  | decision _ judged needed filled _ ih =>
    refine Statement.forall_mem_within.mpr ⟨⟨⟨?_, ?_, judged.column⟩, judged.has.sized hu⟩, ?_⟩
    · exact fun hneeds => needed (Decision.armsOptional_of_needsArm hneeds)
    · exact armsHold_of_holdsStatement (filled hu)
    · exact fun body hbody => ih body hbody hs hu htable
  | counted opens has named closed _ ih =>
    refine Statement.forall_mem_within.mpr ⟨⟨fun i hi => ?_, has.sized hu⟩, ?_⟩
    · obtain ⟨w, hw, hkind, htext⟩ := named hu
      have hne := hs.named w hw hkind
      rw [htext] at hne
      exact (closed i hi hu).resolve_left hne
    · exact List.forall_mem_singleton.mpr (ih hs hu htable)
  | loop _ _ ih =>
    refine Statement.forall_mem_within.mpr ⟨⟨trivial, nofun⟩, ?_⟩
    exact List.forall_mem_singleton.mpr (ih hs hu htable)
  | choice _ _ arms ih =>
    refine Statement.forall_mem_within.mpr ⟨⟨trivial, ?_⟩, ?_⟩
    · refine List.forall_mem_map.mpr fun a ha => ?_
      cases arms a ha with
      | arm _ _ hcond _ behind => exact hcond.sized (behind.clean hu)
    · exact List.forall_mem_map.mpr fun a ha => ih a ha hs hu htable
  | arm before _ _ _ behind ih =>
    exact ih (hs.past before.toPast) (behind.clean hu) (behind.symbols.trans htable)
  | nested before _ behind ih =>
    exact ih (hs.past before.toPast) (behind.clean hu) (behind.symbols.trans htable)
  | looped before _ behind ih =>
    exact ih (hs.past before.toPast).enter (behind.clean hu) (behind.symbols.trans htable)
  | nil => exact nofun
  | closed _ ih => exact ih hs hu htable
  | snoc front last _ _ gap ih ih' | ended front last _ gap ih ih' =>
    have hv := gap.past.clean hu
    have hfollows := gap.past.symbols.trans htable
    have hfront := ih hs (last.past.clean hv) (last.past.symbols.trans hfollows)
    exact Block.forall_mem_all_concat hfront (ih' (hs.past front.past) hv hfollows)

/-! ## 4. Conditions of loops -/

/-- **Conditions of loops stand within loops** wherever no loop is open, if there is no error. -/
theorem Written.conditionsPlaced {n : Node} (h : Written n s u) (hu : u.Clean)
    (hdepth : s.loopDepth = 0) (hn : ∀ body, n ≠ .looped body) : ConditionsPlaced n.all := by
  -- a loop answers for all conditions in it, so that the induction never enters one
  have hlast {front : Block} {last : Statement} (hfront : ConditionsPlaced (Block.all front))
      (hst : ConditionsPlaced (last :: last.within)) :
      ConditionsPlaced (Block.all (front ++ [last])) := by
    rw [Block.all_concat]
    exact hfront.append hst
  induction h with
  | @action a _ _ _ _ told =>
    intro st hst hcondition
    obtain rfl := List.mem_singleton.mp hst
    cases a with
    | loopCondition test cond => exact absurd (told.placed test cond rfl hu) (by omega)
    | _ => cases hcondition
  | decision _ _ _ _ _ ih =>
    exact .of_blocks rfl fun body hbody => ih body hbody hu hdepth nofun
  | counted => exact .of_isLoop rfl
  | loop => exact .of_isLoop rfl
  | choice _ _ _ ih =>
    exact .of_blocks rfl (List.forall_mem_map.mpr fun a ha => ih a ha hu hdepth nofun)
  | arm before _ _ _ behind ih =>
    exact ih (behind.clean hu) (before.depth.trans hdepth) nofun
  | nested before _ behind ih => exact ih (behind.clean hu) (before.depth.trans hdepth) nofun
  | looped => exact absurd rfl (hn _)
  | nil => exact nofun
  | closed _ ih => exact ih hu hdepth nofun
  | snoc front last _ _ gap ih ih' | ended front last _ gap ih ih' =>
    have hv := gap.past.clean hu
    refine hlast (ih (last.past.clean hv) hdepth nofun) ?_
    exact ih' hv (front.past.depth.trans hdepth) nofun

end Grammar

/-! ## 5. Texts -/

/-- The names of a text have at least one character. -/
theorem Lexed.text_ne_of_ident {source : String} {file : Nat} {t : Token}
    (ht : t ∈ (ofText source file).primary) (hk : t.kind = .ident) : t.text ≠ "" := by
  obtain ⟨atStart, first, rest, -, htext, -⟩ :=
    exists_read (List.mem_of_mem_filter ht) (by rw [hk]; nofun)
  rw [htext, ne_eq, String.ofList_eq_empty_iff]
  exact List.cons_ne_nil _ _

namespace Procedure

open Parse Grammar

variable {source : String} {file : Nat}

theorem sane_opening (source : String) (file : Nat) : Sane (opening source file) :=
  ⟨fun _ ht hk => Lexed.text_ne_of_ident ht hk, SymbolTable.whole_empty⟩

/-- **The tree of a text without errors is well formed.** -/
theorem wellFormed (h : (ofText source file).hasErrors = false) :
    (ofText source file).body.WellFormed (ofText source file).symbols := by
  obtain ⟨m, v, hbody⟩ := exists_written source file
  have hclean : v.Clean := hbody.behind.clean (clean_readText h)
  have htable : v.symbols.Follows (ofText source file).symbols := by
    rw [symbols_ofText]
    exact hbody.behind.symbols
  have hall := hbody.written.fits ((sane_opening source file).past hbody.front) hclean htable
  have hdepth : m.loopDepth = 0 := hbody.front.depth
  exact {
    armed hst := (hall _ hst).1.1
    held hst := (hall _ hst).1.2.1
    columns hst := (hall _ hst).1.2.2
    sized st hst := (hall st hst).2
    placed := hbody.written.conditionsPlaced hclean hdepth nofun
    closed hst := (hall _ hst).1
    matrices hst := (hall _ hst).1.2 _ _ rfl
    filled hst := (hall _ hst).1.1 }

/-- A text in which everything occurs that is asked for. -/
def formText : String :=
  "dim m(3)\nmat m = 0\nfor i = 1 to 3\n while x<1, 2>\n  readv a from f, k, 1 else null\nnext I\n" ++
    "on x[1, 2] goto done\nif x then null\ndone:\n"

/-- The tree of such a text is well formed, and a condition stands within its loop. -/
theorem wellFormed_formText : (ofText formText 0).hasErrors = false ∧
    (ofText formText 0).body.WellFormed (ofText formText 0).symbols := by
  have herrors : (ofText formText 0).hasErrors = false := by decide +kernel
  exact ⟨herrors, wellFormed herrors⟩

end Procedure

end BasicCheck
