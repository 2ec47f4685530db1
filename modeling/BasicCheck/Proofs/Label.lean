import BasicCheck.Procedure
import BasicCheck.Proofs.Statement.Tree

/-!
# Where labels stand

The labels of a body are listed in the order of its statements, each with a location that leads to the
statement (`statements_labelsInBlock`). So the table of a body has all names of the labels of the tree
(**`LabelTable.mem_names_ofBody`**), and a name leads to the first statement that declares it
(**`Procedure.labelStatement?_eq`**).
-/

namespace BasicCheck

/-! ## 1. Locations -/

theorem Block.enter?_append {body block inner : Block} {statement : Statement}
    {steps : List (Nat × Nat)} {index : Nat} (number : Nat)
    (hsteps : Block.enter? body steps = some block) (hindex : block[index]? = some statement)
    (hnumber : statement.blocks[number]? = some inner) :
    Block.enter? body (steps ++ [(index, number)]) = some inner := by
  induction steps generalizing body with
  | nil =>
    cases hsteps
    simp [Block.enter?, hindex, hnumber]
  | cons step steps ih =>
    obtain ⟨i, n⟩ := step
    simp only [Block.enter?, Option.bind_eq_bind, Option.bind_eq_some_iff, List.cons_append]
      at hsteps ⊢
    obtain ⟨outer, houter, middle, hmiddle, hrest⟩ := hsteps
    exact ⟨outer, houter, middle, hmiddle, ih hrest⟩

/-- Whatever stands in a block that can be entered stands in the body. -/
theorem Block.all_subset_of_enter? {body block : Block} {steps : List (Nat × Nat)}
    (h : Block.enter? body steps = some block) : Block.all block ⊆ Block.all body := by
  induction steps generalizing body with
  | nil =>
    cases h
    exact List.Subset.refl _
  | cons step steps ih =>
    obtain ⟨i, n⟩ := step
    simp only [Block.enter?, Option.bind_eq_bind, Option.bind_eq_some_iff] at h
    obtain ⟨outer, houter, inner, hinner, hrest⟩ := h
    exact List.Subset.trans (ih hrest)
      (all_subset_of_mem_blocks (List.mem_of_getElem? houter) (List.mem_of_getElem? hinner))

/-- The statement at a position. -/
def LabelLocation.statement? (location : LabelLocation) (body : Block) : Option Statement := do
  let block ← location.resolve? body
  block[location.index]?

/-- A location in a body where a label of a given name is declared. -/
def Declares (body : Block) (name : String) (location : LabelLocation) : Prop :=
  ∃ block ident span, location.resolve? body = some block ∧
    block[location.index]? = some (.action (.label ident) span) ∧ ident.folded = name

/-- A statement declares a label that is looked up by a given name. -/
def Statement.declares (name : String) (s : Statement) : Bool := s.label?.any (·.folded == name)

theorem Statement.exists_of_declares {name : String} {s : Statement} (h : s.declares name = true) :
    ∃ ident span, s = .action (.label ident) span ∧ ident.folded = name := by
  cases s with
  | action form span =>
    cases form with
    | label ident => exact ⟨ident, span, rfl, eq_of_beq h⟩
    | _ => cases h
  | _ => cases h

/-- The names of the labels of a tree are those that its statements declare. -/
theorem Block.mem_labels_iff {body : Block} {name : String} :
    name ∈ (Block.labels body).map Ident.folded ↔ ∃ s ∈ Block.all body, s.declares name = true := by
  simp only [Block.labels, List.mem_map, List.mem_filterMap, Statement.declares, Option.any_eq_true,
    beq_iff_eq]
  grind

/-! ## 2. The list of all labels -/

/-- The name that a statement declares, and the statement. -/
def Statement.declaration? (s : Statement) : Option (String × Option Statement) :=
  s.label?.map fun label => (label.folded, some s)

section Locations

variable (body : Block)

mutual

theorem statements_labelsAt : ∀ (s : Statement) {steps : List (Nat × Nat)} {block : Block} {index : Nat},
    Block.enter? body steps = some block → block[index]? = some s →
      (s.labelsAt steps index).map (fun entry => (entry.1, entry.2.statement? body)) =
        (s :: s.within).filterMap Statement.declaration?
  | .action form span, steps, block, index, hsteps, hindex => by
    have hstatement : (LabelLocation.mk steps index).statement? body = some (.action form span) := by
      rw [LabelLocation.statement?, LabelLocation.resolve?, hsteps]
      exact hindex
    cases form with
    | label name => exact congrArg (fun s => [(name.folded, s)]) hstatement
    | _ => rfl
  -- the blocks of a decision are numbered in the order of its arms, and an arm that is missing has none
  | .decision test none none span, steps, block, index, hsteps, hindex => rfl
  | .decision test none (some arm) span, steps, block, index, hsteps, hindex => by
    have hinner := Block.enter?_append 0 hsteps hindex rfl
    exact statements_labelsInBlock arm hinner fun i => by rw [Nat.zero_add]
  | .decision test (some arm) none span, steps, block, index, hsteps, hindex => by
    have hinner := Block.enter?_append 0 hsteps hindex rfl
    rw [Statement.within, allInArm, allInArm, List.append_nil]
    exact statements_labelsInBlock arm hinner fun i => by rw [Nat.zero_add]
  | .decision test (some thenArm) (some elseArm) span, steps, block, index, hsteps, hindex => by
    have hthen := Block.enter?_append 0 hsteps hindex rfl
    have helse := Block.enter?_append 1 hsteps hindex rfl
    rw [Statement.labelsAt, List.map_append,
      statements_labelsInBlock thenArm hthen fun i => by rw [Nat.zero_add],
      statements_labelsInBlock elseArm helse fun i => by rw [Nat.zero_add], ← List.filterMap_append]
    rfl
  | .counted counter inner closing span, steps, block, index, hsteps, hindex => by
    have hinner := Block.enter?_append 0 hsteps hindex rfl
    exact statements_labelsInBlock inner hinner fun i => by rw [Nat.zero_add]
  | .loop inner span, steps, block, index, hsteps, hindex => by
    have hinner := Block.enter?_append 0 hsteps hindex rfl
    exact statements_labelsInBlock inner hinner fun i => by rw [Nat.zero_add]
  | .choice arms span, steps, block, index, hsteps, hindex =>
    statements_labelsInArms arms hsteps hindex fun i => by rw [Nat.zero_add, Statement.blocks]

theorem statements_labelsInBlock : ∀ (rest : List Statement) {steps : List (Nat × Nat)} {block : Block}
    {index : Nat}, Block.enter? body steps = some block → (∀ i, rest[i]? = block[index + i]?) →
      (labelsInBlock steps index rest).map (fun entry => (entry.1, entry.2.statement? body)) =
        (Block.all rest).filterMap Statement.declaration?
  | [], steps, block, index, hsteps, hrest => rfl
  | s :: rest, steps, block, index, hsteps, hrest => by
    have hindex : block[index]? = some s := (hrest 0).symm
    have hnext : ∀ i, rest[i]? = block[index + 1 + i]? := fun i => by
      rw [Nat.add_assoc, Nat.add_comm 1]
      exact hrest (i + 1)
    have hhere := statements_labelsAt s hsteps hindex
    have hlater := statements_labelsInBlock rest hsteps hnext
    rw [labelsInBlock, List.map_append, hhere, hlater, ← List.filterMap_append, Block.all,
      List.cons_append]

theorem statements_labelsInArms : ∀ (arms : List CaseArm) {steps : List (Nat × Nat)} {block : Block}
    {index arm : Nat} {s : Statement}, Block.enter? body steps = some block →
      block[index]? = some s → (∀ i, (arms.map CaseArm.body)[i]? = s.blocks[arm + i]?) →
      (labelsInArms steps index arm arms).map (fun entry => (entry.1, entry.2.statement? body)) =
        (allInArms arms).filterMap Statement.declaration?
  | [], steps, block, index, arm, s, hsteps, hindex, harms => rfl
  | .mk cond inner span :: rest, steps, block, index, arm, s, hsteps, hindex, harms => by
    have hinner := Block.enter?_append arm hsteps hindex (harms 0).symm
    have hhere := statements_labelsInBlock inner hinner fun i => by rw [Nat.zero_add, CaseArm.body]
    have hnext : ∀ i, (rest.map CaseArm.body)[i]? = s.blocks[arm + 1 + i]? := fun i => by
      rw [Nat.add_assoc, Nat.add_comm 1]
      exact harms (i + 1)
    have hlater := statements_labelsInArms rest hsteps hindex hnext
    rw [labelsInArms, List.map_append, hhere, hlater, ← List.filterMap_append, allInArms]

end

end Locations

theorem lookup_map {α β γ : Type} [BEq α] (f : β → γ) (key : α) (entries : List (α × β)) :
    (entries.map fun entry => (entry.1, f entry.2)).lookup key = (entries.lookup key).map f := by
  induction entries with
  | nil => rfl
  | cons entry rest ih =>
    obtain ⟨name, value⟩ := entry
    rw [List.map_cons, List.lookup_cons, List.lookup_cons, ih]
    cases key == name <;> rfl

theorem lookup_filterMap_declaration? (name : String) (statements : List Statement) :
    (statements.filterMap Statement.declaration?).lookup name =
      (statements.find? (·.declares name)).map some := by
  induction statements with
  | nil => rfl
  | cons s rest ih =>
    rw [List.filterMap_cons, List.find?_cons, Statement.declaration?, Statement.declares]
    cases hlabel : s.label? with
    | none => exact ih
    | some label =>
      rw [Option.map_some, List.lookup_cons, ih, Option.any_some, Bool.beq_comm]
      cases label.folded == name <;> rfl

/-- **A name is found at the first statement that declares it.** -/
theorem lookup_labelsInBlock (body : Block) (name : String) :
    ((labelsInBlock [] 0 body).lookup name).map (·.statement? body) =
      ((Block.all body).find? (·.declares name)).map some := by
  have hbody : Block.enter? body [] = some body := rfl
  rw [← lookup_filterMap_declaration?, ← lookup_map,
    statements_labelsInBlock body body hbody fun i => by rw [Nat.zero_add]]

/-! ## 3. The table -/

namespace LabelTable

/-- A table with further labels, the first ones first. -/
def addAll (table : LabelTable) (found : List (String × LabelLocation)) : LabelTable :=
  found.foldl (fun table entry => table.add entry.1 entry.2) table

theorem ofBody_eq (body : Block) : ofBody body = addAll ⟨[]⟩ (labelsInBlock [] 0 body) := rfl

theorem lookup_add (table : LabelTable) (name : String) (location : LabelLocation) (other : String) :
    (table.add name location).entries.lookup other =
      (table.entries.lookup other).or (List.lookup other [(name, location)]) := by
  unfold add
  split
  · rename_i hknown
    by_cases hother : other = name
    · obtain ⟨found, hfound⟩ := Option.isSome_iff_exists.mp hknown
      rw [hother, hfound, Option.some_or]
    · rw [List.lookup_cons, beq_false_of_ne hother, List.lookup_nil, Option.or_none]
  · exact List.lookup_append

/-- What is in a table stays, and of what is added the first of each name counts. -/
theorem lookup_addAll (table : LabelTable) (found : List (String × LabelLocation)) (name : String) :
    (table.addAll found).entries.lookup name =
      (table.entries.lookup name).or (found.lookup name) := by
  induction found generalizing table with
  | nil => simp [addAll]
  | cons entry rest ih =>
    rw [addAll, List.foldl_cons, ← addAll, ih, lookup_add, Option.or_assoc, ← List.lookup_append,
      List.singleton_append]

theorem lookup_ofBody (body : Block) (name : String) :
    (ofBody body).entries.lookup name = (labelsInBlock [] 0 body).lookup name := by
  rw [ofBody_eq, lookup_addAll, List.lookup_nil, Option.none_or]

/-- **The location of a name is that of the first statement that declares it.** -/
theorem statement?_get? (body : Block) (name : String) :
    ((ofBody body).get? name).map (·.statement? body) =
      ((Block.all body).find? (·.declares (Text.fold name))).map some := by
  rw [get?, lookup_ofBody, lookup_labelsInBlock]

theorem find?_of_get? {body : Block} {name : String} {location : LabelLocation}
    (hget : (ofBody body).get? name = some location) : ∃ s,
    (Block.all body).find? (·.declares (Text.fold name)) = some s ∧
      location.statement? body = some s := by
  have hstatement := statement?_get? body name
  rw [hget, Option.map_some] at hstatement
  obtain ⟨s, hfind, heq⟩ := Option.map_eq_some_iff.mp hstatement.symm
  exact ⟨s, hfind, heq.symm⟩

/-- The location of a name is one where a label of that name is declared. -/
theorem declares_of_get? {body : Block} {name : String} {location : LabelLocation}
    (hget : (ofBody body).get? name = some location) : Declares body (Text.fold name) location := by
  obtain ⟨s, hfind, hstatement⟩ := find?_of_get? hget
  obtain ⟨ident, span, rfl, hname⟩ := Statement.exists_of_declares (List.find?_some hfind)
  simp only [LabelLocation.statement?, Option.bind_eq_bind, Option.bind_eq_some_iff] at hstatement
  obtain ⟨block, hblock, hindex⟩ := hstatement
  exact ⟨block, ident, span, hblock, hindex, hname⟩

theorem mem_names_iff {table : LabelTable} {name : String} :
    name ∈ table.names ↔ (table.entries.lookup name).isSome = true := by
  simp only [List.lookup_isSome_iff, names, List.mem_map, beq_iff_eq]
  exact exists_congr fun _ => and_congr_right' eq_comm

/-- **The names of a table are those of all labels of its body.** -/
theorem mem_names_ofBody (body : Block) (name : String) :
    name ∈ (ofBody body).names ↔ name ∈ (Block.labels body).map Ident.folded := by
  have hfound := congrArg Option.isSome (lookup_labelsInBlock body name)
  rw [Option.isSome_map, Option.isSome_map] at hfound
  rw [mem_names_iff, lookup_ofBody, hfound, List.find?_isSome, Block.mem_labels_iff]

theorem nodup_names_add {table : LabelTable} (h : table.names.Nodup) (name : String)
    (location : LabelLocation) : (table.add name location).names.Nodup := by
  unfold add
  split
  · exact h
  · rename_i hfree
    rw [names, List.map_append]
    refine List.nodup_append.mpr ⟨h, List.pairwise_singleton _ name, fun other hother name' hname => ?_⟩
    rw [List.mem_singleton.mp hname]
    rintro rfl
    exact hfree (mem_names_iff.mp hother)

/-- **No name is twice in the table of a body.** -/
theorem nodup_names_ofBody (body : Block) : (ofBody body).names.Nodup := by
  have hall : ∀ (found : List (String × LabelLocation)) (table : LabelTable),
      table.names.Nodup → (table.addAll found).names.Nodup := by
    intro found
    induction found with
    | nil => exact fun _ h => h
    | cons entry rest ih => exact fun table h => ih _ (nodup_names_add h entry.1 entry.2)
  exact hall _ ⟨[]⟩ List.nodup_nil

end LabelTable

namespace Procedure

/-- **A name leads to the first statement that declares it.** -/
theorem labelStatement?_eq {p : Procedure} (hlabels : p.labels = .ofBody p.body) (name : String) :
    p.labelStatement? name = (Block.all p.body).find? (·.declares (Text.fold name)) := by
  calc p.labelStatement? name
      = ((p.labels.get? name).map (·.statement? p.body)).join := by
        rw [labelStatement?]
        cases p.labels.get? name <;> rfl
    _ = (((Block.all p.body).find? (·.declares (Text.fold name))).map some).join := by
        rw [hlabels, LabelTable.statement?_get?]
    _ = (Block.all p.body).find? (·.declares (Text.fold name)) := by
        cases (Block.all p.body).find? (·.declares (Text.fold name)) <;> rfl

/-- The statement that a name leads to declares a label of that name. -/
theorem exists_of_labelStatement? {p : Procedure} (hlabels : p.labels = .ofBody p.body)
    {name : String} {s : Statement} (h : p.labelStatement? name = some s) :
    ∃ ident span, s = .action (.label ident) span ∧ ident.folded = Text.fold name := by
  rw [labelStatement?_eq hlabels] at h
  exact Statement.exists_of_declares (List.find?_some h)

/-- Each name of the table leads to a statement of the body. -/
theorem exists_labelStatement? {p : Procedure} (hlabels : p.labels = .ofBody p.body)
    {name : String} (h : Text.fold name ∈ p.labels.names) :
    ∃ s ∈ Block.all p.body, p.labelStatement? name = some s := by
  rw [hlabels, LabelTable.mem_names_ofBody, Block.mem_labels_iff] at h
  obtain ⟨s, hs⟩ := Option.isSome_iff_exists.mp (List.find?_isSome.mpr h)
  exact ⟨s, List.mem_of_find?_eq_some hs, (labelStatement?_eq hlabels name).trans hs⟩

end Procedure

end BasicCheck
