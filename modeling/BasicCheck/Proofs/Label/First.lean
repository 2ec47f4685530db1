import BasicCheck.Proofs.Label

/-!
# The first label of a name

On the way to a position the numbers of the statements and of the blocks that are entered tell when it is
read: a statement before those within it, and these before the statements behind it
(`LabelLocation.Before`). The labels of a body are listed in this order (`ordered_labelsInBlock`), and
wherever a label is declared, its position is in the list (`mem_labelsInBlock_of_declares`). So the table
has a name if and only if a label of the tree has it, at whatever depth, and its location is read before
all others where a label of that name stands; what follows a label is the rest of its list
(**`Procedure.leads_to_first`**).
-/

namespace BasicCheck

namespace LabelLocation

/-! ## 1. Reading order -/

/-- The numbers on the way into a block. -/
def numbersOf (steps : List (Nat × Nat)) : List Nat := steps.flatMap fun step => [step.1, step.2]

theorem numbersOf_concat (steps : List (Nat × Nat)) (index number : Nat) :
    numbersOf (steps ++ [(index, number)]) = (numbersOf steps ++ [index]) ++ [number] := by
  simp [numbersOf]

/-- The numbers on the way to a position. -/
def path (location : LabelLocation) : List Nat := numbersOf location.steps ++ [location.index]

/-- One position is read before another: the first number that differs is less, or the way to the other
    one only goes on. -/
def Before (a b : LabelLocation) : Prop := a.path < b.path

/-- Entries in reading order, the ways to which go on from `start` with certain numbers. -/
structure Ordered (start : List Nat) (P : Nat → Prop) (entries : List (String × LabelLocation)) :
    Prop where
  paths : ∀ entry ∈ entries, ∃ number rest, P number ∧ entry.2.path = start ++ number :: rest
  pairwise : entries.Pairwise fun a b => a.2.Before b.2

namespace Ordered

variable {start : List Nat} {P Q : Nat → Prop} {a b : List (String × LabelLocation)}

theorem nil : Ordered start P [] := ⟨List.forall_mem_nil _, List.Pairwise.nil⟩

theorem mono (h : Ordered start P a) (hPQ : ∀ number, P number → Q number) : Ordered start Q a where
  paths entry hentry := by
    obtain ⟨number, rest, hnumber, hpath⟩ := h.paths entry hentry
    exact ⟨number, rest, hPQ number hnumber, hpath⟩
  pairwise := h.pairwise

/-- What goes on with lesser numbers is read first. -/
theorem append (ha : Ordered start P a) (hb : Ordered start Q b)
    (hless : ∀ i j, P i → Q j → i < j) :
    Ordered start (fun number => P number ∨ Q number) (a ++ b) where
  paths := List.forall_mem_append.mpr
    ⟨(ha.mono fun _ => .inl).paths, (hb.mono fun _ => .inr).paths⟩
  pairwise := by
    refine List.pairwise_append.mpr ⟨ha.pairwise, hb.pairwise, fun x hx y hy => ?_⟩
    obtain ⟨i, rest, hi, hpath⟩ := ha.paths x hx
    obtain ⟨j, rest', hj, hpath'⟩ := hb.paths y hy
    rw [Before, hpath, hpath']
    exact List.append_left_lt (List.cons_lt_cons_iff.mpr (.inl (hless i j hi hj)))

/-- All of them go on behind one number. -/
theorem behind {number : Nat} (h : Ordered (start ++ [number]) P a) :
    Ordered start (· = number) a where
  paths entry hentry := by
    obtain ⟨next, rest, -, hpath⟩ := h.paths entry hentry
    exact ⟨number, next :: rest, rfl, by rw [hpath, List.append_assoc, List.singleton_append]⟩
  pairwise := h.pairwise

/-- What stands in a block goes on behind the number of the block. -/
theorem nested {steps : List (Nat × Nat)} {index number : Nat}
    (h : Ordered (numbersOf (steps ++ [(index, number)])) P a) :
    Ordered (numbersOf steps ++ [index]) (· = number) a := by
  rw [numbersOf_concat] at h
  exact h.behind

end Ordered

mutual

theorem ordered_labelsAt (steps : List (Nat × Nat)) (index : Nat) : ∀ s : Statement,
    Ordered (numbersOf steps) (· = index) (s.labelsAt steps index)
  | .action form span => by
    cases form with
    | label name =>
      exact ⟨List.forall_mem_singleton.mpr ⟨index, [], rfl, rfl⟩, List.pairwise_singleton _ _⟩
    | _ => exact .nil
  | .decision _ none none _ => .nil
  | .decision _ none (some arm) _ => (ordered_labelsInBlock _ 0 arm).nested.behind
  | .decision _ (some arm) none _ => (ordered_labelsInBlock _ 0 arm).nested.behind
  | .decision _ (some thenArm) (some elseArm) _ => by
    have hthen := (ordered_labelsInBlock (steps ++ [(index, 0)]) 0 thenArm).nested
    have helse := (ordered_labelsInBlock (steps ++ [(index, 1)]) 0 elseArm).nested
    exact (hthen.append helse fun i j hi hj => by omega).behind
  | .counted _ body _ _ => (ordered_labelsInBlock _ 0 body).nested.behind
  | .loop body _ => (ordered_labelsInBlock _ 0 body).nested.behind
  | .choice arms _ => (ordered_labelsInArms steps index 0 arms).behind

/-- **The labels of a block are listed in reading order.** -/
theorem ordered_labelsInBlock (steps : List (Nat × Nat)) (index : Nat) : ∀ rest : List Statement,
    Ordered (numbersOf steps) (index ≤ ·) (labelsInBlock steps index rest)
  | [] => .nil
  | s :: rest => by
    have hhere := ordered_labelsAt steps index s
    have hrest := ordered_labelsInBlock steps (index + 1) rest
    exact (hhere.append hrest fun i j hi hj => by omega).mono fun number hnumber => by omega

theorem ordered_labelsInArms (steps : List (Nat × Nat)) (index arm : Nat) : ∀ arms : List CaseArm,
    Ordered (numbersOf steps ++ [index]) (arm ≤ ·) (labelsInArms steps index arm arms)
  | [] => .nil
  | .mk _ body _ :: rest => by
    have hhere := (ordered_labelsInBlock (steps ++ [(index, arm)]) 0 body).nested
    have hrest := ordered_labelsInArms steps index (arm + 1) rest
    exact (hhere.append hrest fun i j hi hj => by omega).mono fun number hnumber => by omega

end

/-! ## 2. Every label is listed -/

theorem labelsAt_subset {s : Statement} (steps : List (Nat × Nat)) :
    ∀ {rest : List Statement} (index i : Nat), rest[i]? = some s →
      s.labelsAt steps (index + i) ⊆ labelsInBlock steps index rest
  | [], _, _, h => by cases h
  | first :: rest, index, 0, h => by
    cases h
    exact List.subset_append_left _ _
  | first :: rest, index, i + 1, h => by
    have hrest := labelsAt_subset steps (index + 1) i h
    rw [Nat.add_assoc, Nat.add_comm 1] at hrest
    exact List.Subset.trans hrest (List.subset_append_right _ _)

theorem labelsInArms_subset {block : Block} (steps : List (Nat × Nat)) (index : Nat) :
    ∀ {arms : List CaseArm} (arm i : Nat), (arms.map CaseArm.body)[i]? = some block →
      labelsInBlock (steps ++ [(index, arm + i)]) 0 block ⊆ labelsInArms steps index arm arms
  | [], _, _, h => by cases h
  | .mk _ body _ :: rest, arm, 0, h => by
    cases h
    exact List.subset_append_left _ _
  | .mk _ body _ :: rest, arm, i + 1, h => by
    have hrest := labelsInArms_subset steps index (arm + 1) i h
    rw [Nat.add_assoc, Nat.add_comm 1] at hrest
    exact List.Subset.trans hrest (List.subset_append_right _ _)

/-- Where a statement has one block, that is number 0. -/
theorem labelsInBlock_subset_of_only {body block : Block} {steps : List (Nat × Nat)} {index i : Nat}
    (h : [body][i]? = some block) : labelsInBlock (steps ++ [(index, i)]) 0 block ⊆
      labelsInBlock (steps ++ [(index, 0)]) 0 body := by
  cases i with
  | zero =>
    cases h
    exact List.Subset.refl _
  | succ i => cases h

/-- The blocks of a statement are numbered as they are entered. An arm that is missing has no number. -/
theorem labelsInBlock_subset {s : Statement} {block : Block} {steps : List (Nat × Nat)} {index i : Nat}
    (h : s.blocks[i]? = some block) :
    labelsInBlock (steps ++ [(index, i)]) 0 block ⊆ s.labelsAt steps index := by
  cases s with
  | action form span => cases h
  | decision test thenArm elseArm span =>
    cases thenArm with
    | none =>
      cases elseArm with
      | none => cases h
      | some arm => exact labelsInBlock_subset_of_only h
    | some thenArm =>
      cases elseArm with
      | none => exact labelsInBlock_subset_of_only h
      | some elseArm =>
        match i, h with
        | 0, rfl => exact List.subset_append_left _ _
        | 1, rfl => exact List.subset_append_right _ _
  | counted counter body closing span => exact labelsInBlock_subset_of_only h
  | loop body span => exact labelsInBlock_subset_of_only h
  | choice arms span =>
    have harms := labelsInArms_subset steps index 0 i h
    rw [Nat.zero_add] at harms
    exact harms

/-- A label in a block that is entered by further steps is listed. -/
theorem mem_labelsInBlock_of_enter? {label : Ident} {span : Span} {index : Nat} {inner : Block}
    (hindex : inner[index]? = some (.action (.label label) span)) :
    ∀ {further : List (Nat × Nat)} {block : Block} (steps : List (Nat × Nat)),
      Block.enter? block further = some inner →
      (label.folded, ⟨steps ++ further, index⟩) ∈ labelsInBlock steps 0 block
  | [], block, steps, h => by
    cases h
    have hsub := labelsAt_subset steps 0 index hindex
    rw [Nat.zero_add] at hsub
    rw [List.append_nil]
    exact hsub List.mem_cons_self
  | (i, n) :: further, block, steps, h => by
    simp only [Block.enter?, Option.bind_eq_bind, Option.bind_eq_some_iff] at h
    obtain ⟨s, hs, next, hnext, h⟩ := h
    have hmem := mem_labelsInBlock_of_enter? hindex (steps ++ [(i, n)]) h
    have hsub := labelsAt_subset steps 0 i hs
    rw [Nat.zero_add] at hsub
    rw [List.append_assoc, List.singleton_append] at hmem
    exact hsub (labelsInBlock_subset hnext hmem)

/-- **Every position where a label is declared is listed.** -/
theorem mem_labelsInBlock_of_declares {body : Block} {name : String} {location : LabelLocation}
    (h : Declares body name location) : (name, location) ∈ labelsInBlock [] 0 body := by
  obtain ⟨block, label, span, hblock, hindex, rfl⟩ := h
  exact mem_labelsInBlock_of_enter? hindex [] hblock

/-! ## 3. The table -/

/-- **The location of a name is read before all others where the name is declared.** -/
theorem before_of_get? {body : Block} {name : String} {location other : LabelLocation}
    (hget : (LabelTable.ofBody body).get? name = some location)
    (hother : Declares body (Text.fold name) other) : other = location ∨ location.Before other := by
  rw [LabelTable.get?, LabelTable.lookup_ofBody] at hget
  obtain ⟨earlier, later, hlist, hnone⟩ := List.lookup_eq_some_iff.mp hget
  have hmem := mem_labelsInBlock_of_declares hother
  have hordered := (ordered_labelsInBlock [] 0 body).pairwise
  rw [hlist] at hmem hordered
  rcases List.mem_append.mp hmem with hmem | hmem
  · -- what is listed before it has another name
    exact absurd rfl (bne_iff_ne.mp (hnone _ hmem))
  · rcases List.mem_cons.mp hmem with heq | hmem
    · exact .inl (congrArg Prod.snd heq)
    · have hbehind := (List.pairwise_append.mp hordered).2.1
      exact .inr (List.rel_of_pairwise_cons hbehind hmem)

end LabelLocation

namespace Procedure

/-- **Labels lead to their first declaration.** In a procedure with any body and the labels of that body,
    a name is in the table if and only if some statement of the tree declares it. Its location leads to a
    list in which the first such statement in reading order stands at the index, before all other
    positions where the name is declared, and what follows the label is the rest of that list. -/
theorem leads_to_first (p : Procedure) (body : Block) (name : String) :
    let q : Procedure := { p with body := body, labels := .ofBody body }
    (q.labels.contains name = true ↔
        ∃ s ∈ Block.all body, s.declares (Text.fold name) = true) ∧
      ∀ location, q.labels.get? name = some location → ∃ before s rest,
        location.resolve? body = some (before ++ s :: rest) ∧ before.length = location.index ∧
        (Block.all body).find? (·.declares (Text.fold name)) = some s ∧
        (∀ other, Declares body (Text.fold name) other →
          other = location ∨ location.Before other) ∧
        q.labelStatement? name = some s ∧ q.afterLabel? name = some rest := by
  intro q
  constructor
  · rw [LabelTable.contains, LabelTable.get?, ← LabelTable.mem_names_iff,
      LabelTable.mem_names_ofBody, Block.mem_labels_iff]
  · intro location hget
    -- the statement at the location is the first that declares the name, and it splits its list there
    obtain ⟨s, hfind, hstatement⟩ := LabelTable.find?_of_get? hget
    simp only [LabelLocation.statement?, Option.bind_eq_bind, Option.bind_eq_some_iff] at hstatement
    obtain ⟨block, hblock, hindex⟩ := hstatement
    obtain ⟨hlt, hs⟩ := List.getElem?_eq_some_iff.mp hindex
    have hsplit : block = block.take location.index ++ s :: block.drop (location.index + 1) := by
      rw [← hs, List.getElem_cons_drop, List.take_append_drop]
    refine ⟨block.take location.index, s, block.drop (location.index + 1), ?_, ?_, hfind,
      fun other => LabelLocation.before_of_get? hget, ?_, ?_⟩
    · rw [← hsplit]
      exact hblock
    · exact List.length_take_of_le (Nat.le_of_lt hlt)
    · rw [labelStatement?_eq rfl]
      exact hfind
    · rw [afterLabel?, hget, Option.bind_eq_bind, Option.bind_some, hblock]
      rfl

/-- A label in the only arm of a decision, and one with the same name behind the decision. -/
def twiceDeclared : Block :=
  [.decision default none (some [.action .null .blank, .action (.label ⟨"A", .label, .blank⟩) .blank,
      .action .stop .blank]) .blank,
    .action (.label ⟨"a", .label, .blank⟩) .blank]

/-- The label in the arm is the first one; the arm is block 0, since the other one is missing. -/
theorem leads_to_first_twice :
    let q : Procedure := { (default : Procedure) with
      body := twiceDeclared, labels := .ofBody twiceDeclared }
    q.labels.get? "a" = some ⟨[(0, 0)], 1⟩ ∧ ∃ before s rest,
      LabelLocation.resolve? ⟨[(0, 0)], 1⟩ twiceDeclared = some (before ++ s :: rest) ∧
        before.length = 1 ∧ (Block.all twiceDeclared).find? (·.declares (Text.fold "a")) = some s ∧
        (∀ other, Declares twiceDeclared (Text.fold "a") other →
          other = ⟨[(0, 0)], 1⟩ ∨ LabelLocation.Before ⟨[(0, 0)], 1⟩ other) ∧
        q.labelStatement? "a" = some s ∧ q.afterLabel? "a" = some rest := by
  intro q
  have hget : q.labels.get? "a" = some ⟨[(0, 0)], 1⟩ := by decide +kernel
  exact ⟨hget, (leads_to_first default twiceDeclared "a").2 ⟨[(0, 0)], 1⟩ hget⟩

end Procedure

end BasicCheck
