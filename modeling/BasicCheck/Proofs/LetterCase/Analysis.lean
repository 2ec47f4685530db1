import BasicCheck.Proofs.LetterCase.Procedure
import BasicCheck.Proofs.Recast.Analysis

/-!
# Analyses of procedures that differ in ASCII case

The two analyses of a procedure with small letters find what they find in the procedure, with small
letters (**`Procedure.unreachable_lower`**, **`Procedure.unassigned_lower`**), as they do for every
way to write a procedure anew. Together with what is read from texts that differ in ASCII case this
says that no such text is told from another one, from its tokens to its analyses, but for the case
of what they quote (**`Text.Alike.readAlike`**).
-/

namespace BasicCheck

/-! ## 1. Analyses -/

/-- **The statements that are never reached** differ in case only. -/
theorem Procedure.unreachable_lower (p : Procedure) :
    p.lower.unreachable = p.unreachable.map Statement.lower := by
  rw [p.recasts_lower.unreachable, Statement.lower_eq]

/-- The finding with small letters. -/
def Assignment.Finding.lower (f : Finding) : Finding := ⟨f.ident.lower, f.statement.lower⟩

open Assignment in
/-- **The reads that may be unassigned** differ in case only. -/
theorem Procedure.unassigned_lower (p : Procedure) :
    p.lower.unassigned = p.unassigned.map Finding.lower := by
  have hfinding : Finding.lower = Assignment.Finding.recast .lowercase := by
    funext f
    rw [Finding.lower, Statement.lower_eq]
    rfl
  rw [p.recasts_lower.unassigned fun _ _ _ _ _ _ _ _ heq => heq, hfinding]

/-! ## 2. Alike texts -/

/-- What is read from the second text is what is read from the first one, up to ASCII case of names
    and literals. Wherever something is compared with small letters, only texts are made small: its
    kinds, spans and flags are compared as they are. -/
structure Text.ReadAlike (source source' : String) (file : Nat) : Prop where
  /-- The tokens that the grammar reads have the same kinds, spans and flags. -/
  primary : (Lexed.ofText source file).primary.map Token.lower =
    (Lexed.ofText source' file).primary.map Token.lower
  /-- So have the comments and continuations. -/
  trivia : (Lexed.ofText source file).trivia.map Token.lower =
    (Lexed.ofText source' file).trivia.map Token.lower
  /-- The same is wrong with the texts, at the same places. -/
  faults : (Lexed.ofText source file).faults.map Fault.lower =
    (Lexed.ofText source' file).faults.map Fault.lower
  /-- Header, tree and symbols differ in case only, labels and regions not at all; diagnostics have
      the same spans and severities. -/
  procedure : (Procedure.ofText source file).lower = (Procedure.ofText source' file).lower
  /-- The same statements are never reached. -/
  unreachable : (Procedure.ofText source file).unreachable.map Statement.lower =
    (Procedure.ofText source' file).unreachable.map Statement.lower
  /-- The same reads may be unassigned. -/
  unassigned : (Procedure.ofText source file).unassigned.map Assignment.Finding.lower =
    (Procedure.ofText source' file).unassigned.map Assignment.Finding.lower

/-- **Texts that differ in ASCII case are read alike.** -/
theorem Text.Alike.readAlike {source source' : String} (h : Alike source source') (file : Nat) :
    ReadAlike source source' file := by
  have hlexed : (Lexed.ofText source file).lower = (Lexed.ofText source' file).lower := by
    rw [← Lexed.ofText_lower, ← Lexed.ofText_lower, alike_iff.mp h]
  have hprocedure :
      (Procedure.ofText source file).lower = (Procedure.ofText source' file).lower := by
    rw [Procedure.lower_ofText, Procedure.lower_ofText, alike_iff.mp h]
  exact {
    primary := by rw [← Lexed.primary_lower, ← Lexed.primary_lower, hlexed]
    trivia := by rw [← Lexed.trivia_lower, ← Lexed.trivia_lower, hlexed]
    faults := congrArg Lexed.faults hlexed
    procedure := hprocedure
    unreachable := by
      rw [← Procedure.unreachable_lower, ← Procedure.unreachable_lower, hprocedure]
    unassigned := by
      rw [← Procedure.unassigned_lower, ← Procedure.unassigned_lower, hprocedure] }

/-- A label, keywords, a literal and a comment in either case. -/
theorem Text.Alike.readAlike_goto :
    let source := "* Note\nif Total then goto Done\nTotal = 'Ab'\nDone:\n"
    let source' := "* NOTE\nIF TOTAL THEN GOTO DONE\ntotal = 'aB'\ndone:\n"
    Alike source source' ∧ ReadAlike source source' 0 := by
  intro source source'
  have halike : Alike source source' := by decide +kernel
  exact ⟨halike, halike.readAlike 0⟩

end BasicCheck
