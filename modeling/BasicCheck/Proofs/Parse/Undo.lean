import BasicCheck.Proofs.Parse.Run
import BasicCheck.Proofs.Symbol.Rollback

/-!
# Going back

A snapshot takes sizes, not contents: going back to it cuts what has been recorded since and forgets
the spots that have been entered since. After a run from a sound state this gives back everything
that was known when the snapshot was taken (**`Run.restore_eq`**), as long as no label from before was
declared and no loop was opened or closed on the way (`Event.IsUndone`). What makes it true is that a
run notes only tokens that it has read itself, and these have no spot in common with what was noted
before.
-/

namespace BasicCheck.Parse

/-- What going back to an earlier state undoes. -/
def Event.IsUndone : Event → Prop
  | promotes _ _ | enters | leaves | begins | catches _ => False
  | _ => True

/-- Whether an event is an attempt that is taken back. -/
def Event.isGivenUp : Event → Bool
  | givesUp _ => true
  | _ => false

/-- What was recorded in a state can be cut off a later one. -/
structure Extends (s u : State) : Prop where
  depth : u.loopDepth = s.loopDepth
  table : u.symbols.rollback s.symbols.checkpoint = s.symbols
  diagnostics : u.diagnostics.take s.diagnostics.size = s.diagnostics
  regions : u.regions.take s.regions.size = s.regions
  recoveries : u.recoveries = s.recoveries
  begun : u.begun = s.begun

/-- What has been cut at a size is cut again when something is put behind it. -/
theorem take_push {α : Type} {xs ys : Array α} (h : xs.take ys.size = ys) (a : α) :
    (xs.push a).take ys.size = ys := by
  have hsize : ys.size ≤ xs.size := by
    have := congrArg Array.size h
    simp only [Array.take_eq_extract, Array.size_extract] at this
    omega
  refine Eq.trans (Array.ext_getElem? fun i => ?_) h
  rw [SymbolTable.getElem?_take, SymbolTable.getElem?_take, Array.getElem?_push]
  split
  · rw [if_neg (by omega)]
  · rfl

namespace Extends

variable {s u : State}

/-- The spots of an unread token of a sound state are entered later only. -/
theorem freeSince (hs : s.Sound) (h : Extends s u) {t token : Token} (ht : t ∈ s.rest.tokens)
    (hspan : token.span = t.span) : u.symbols.FreeSince s.symbols.checkpoint token := by
  refine SymbolTable.freeSince_of_rollback h.table fun p hp => ?_
  rw [Option.eq_none_iff_forall_ne_some]
  intro n hn
  obtain ⟨r, hr, hpr⟩ := hs.table.spots hn
  rw [hspan] at hp
  exact SymbolTable.notMem_spotsOf (hs.behind hr t ht) hpr hp

end Extends

namespace Run

variable {s u : State} {trace : List Event}

/-- A run that can be undone only puts something behind what was recorded. -/
theorem extends_of_undone (hs : s.Sound) (h : Run s trace u) (hundone : ∀ e ∈ trace, e.IsUndone) :
    Extends s u := by
  -- on the run; what is named was read since, so no older reference stands at its place
  induction h with
  | start =>
    refine ⟨rfl, hs.table.bounded.rollback_checkpoint, ?_, ?_, rfl, rfl⟩ <;>
      rw [Array.take_eq_extract, Array.extract_size]
  | @next trace u e h legal ih =>
    have hu : Extends s u := ih fun e he => hundone e (List.mem_append_left _ he)
    have hfree {token : Token} (hnamed : token.IsNamed (readBy trace)) :
        u.symbols.FreeSince s.symbols.checkpoint token := by
      obtain ⟨t, ht, -, hspan⟩ := hnamed
      refine hu.freeSince hs ?_ hspan
      rw [h.tokens_eq]
      exact List.mem_append_left _ ht
    cases e with
    | reports d => exact { hu with diagnostics := take_push hu.diagnostics d }
    | closes region => exact { hu with regions := take_push hu.regions region }
    | refers kind id t =>
      refine { hu with table := ?_ }
      exact (SymbolTable.rollback_addReference (SymbolTable.references_le_of_rollback hu.table)
        (hfree legal.2.1) id).trans hu.table
    | creates meaning t =>
      refine { hu with table := ?_ }
      exact (SymbolTable.rollback_create (SymbolTable.symbols_le_of_rollback hu.table)
        (SymbolTable.references_le_of_rollback hu.table) (hfree legal.2.1) legal.1).trans hu.table
    | promotes _ _ | enters | leaves | begins | catches _ =>
      exact (hundone _ (List.mem_append_right _ List.mem_cons_self)).elim
    | _ => exact { hu with }

/-- **Going back behind a run gives back what was known before it.** -/
theorem restore_eq (hs : s.Sound) (hsplit : s.split = none) (h : Run s trace u)
    (hundone : ∀ e ∈ trace, e.IsUndone) : (u.restore s.snapshot).toReading = s.toReading := by
  have hu := extends_of_undone hs h hundone
  have heof := h.eof_eq
  show Reading.mk s.rest s.last none u.eof (u.symbols.rollback s.symbols.checkpoint)
    (u.diagnostics.take s.diagnostics.size) (u.regions.take s.regions.size) u.loopDepth = _
  rw [← hsplit, heof, hu.table, hu.diagnostics, hu.regions, hu.depth]

/-- What is left of a run that is undone: the attempts that were taken back within it. -/
theorem attempts (h : Run s trace u) :
    Run s (trace.filter Event.isGivenUp)
      { s with takenBack := u.takenBack, retreats := u.retreats } := by
  induction h with
  | start => exact .start
  | @next trace u e _ legal ih =>
    rw [List.filter_append]
    cases e with
    | givesUp attempt => exact ih.next legal
    | _ => exact (List.append_nil (trace.filter Event.isGivenUp)).symm ▸ ih

/-- **An attempt that is taken back comes to no more than the note of it.** -/
theorem takeBack (hs : s.Sound) (hsplit : s.split = none) (h : Run s trace u)
    (hundone : ∀ e ∈ trace, e.IsUndone) :
    Run s (trace.filter Event.isGivenUp ++
      [.givesUp ⟨s.toReading, (u.restore s.snapshot).toReading⟩])
      (u.takeBack s.snapshot s.toReading) := by
  have hback := h.restore_eq hs hsplit hundone
  have hu := extends_of_undone hs h hundone
  have hstate : u.takeBack s.snapshot s.toReading =
      Event.act { s with takenBack := u.takenBack, retreats := u.retreats }
        (.givesUp ⟨s.toReading, (u.restore s.snapshot).toReading⟩) := by
    rw [← hu.recoveries, ← hu.begun]
    exact congrArg (State.mk · _ _ _ _) hback
  rw [hstate]
  exact h.attempts.next ⟨hback, hsplit⟩

end Run

end BasicCheck.Parse
