import BasicCheck.Statement.Parts

/-!
# Labels of a procedure

Where the labels of a body stand. A location leads from the body into nested blocks, one step for
each block, to a position in the last one (`LabelLocation.resolve?`). Of several labels with one name
the first in reading order is the one that jumps lead to (`LabelTable.get?`).
-/

namespace BasicCheck

/-! ## 1. Locations -/

/-- A position in a tree of statements. Each step enters a block of a statement, both given by their
    numbers; `index` counts in the block that is reached. -/
structure LabelLocation where
  steps : List (Nat × Nat)
  index : Nat
  deriving DecidableEq, Repr, Inhabited

/-- The block that is reached by some steps. -/
def Block.enter? : Block → List (Nat × Nat) → Option Block
  | block, [] => some block
  | block, (s, b) :: steps => do
    let statement ← block[s]?
    let inner ← statement.blocks[b]?
    Block.enter? inner steps

/-- The block that holds a location. -/
def LabelLocation.resolve? (location : LabelLocation) (body : Block) : Option Block :=
  Block.enter? body location.steps

/-! ## 2. All labels in reading order -/

mutual

/-- The labels of a statement that has a given number in its block, nested ones included, by the
    names that they are looked up by. -/
def Statement.labelsAt (steps : List (Nat × Nat)) (index : Nat) :
    Statement → List (String × LabelLocation)
  | .action (.label label) _ => [(label.folded, ⟨steps, index⟩)]
  | .action _ _ => []
  | .decision _ (some thenArm) (some elseArm) _ =>
    labelsInBlock (steps ++ [(index, 0)]) 0 thenArm ++
      labelsInBlock (steps ++ [(index, 1)]) 0 elseArm
  | .decision _ (some arm) none _ => labelsInBlock (steps ++ [(index, 0)]) 0 arm
  | .decision _ none (some arm) _ => labelsInBlock (steps ++ [(index, 0)]) 0 arm
  | .decision _ none none _ => []
  | .counted _ body _ _ => labelsInBlock (steps ++ [(index, 0)]) 0 body
  | .loop body _ => labelsInBlock (steps ++ [(index, 0)]) 0 body
  | .choice arms _ => labelsInArms steps index 0 arms

/-- The labels of the statements of a block from a given number on. -/
def labelsInBlock (steps : List (Nat × Nat)) (index : Nat) :
    List Statement → List (String × LabelLocation)
  | [] => []
  | s :: rest => s.labelsAt steps index ++ labelsInBlock steps (index + 1) rest

/-- The labels in the arms of a choice from a given number on. -/
def labelsInArms (steps : List (Nat × Nat)) (index arm : Nat) :
    List CaseArm → List (String × LabelLocation)
  | [] => []
  | .mk _ body _ :: rest =>
    labelsInBlock (steps ++ [(index, arm)]) 0 body ++ labelsInArms steps index (arm + 1) rest

end

/-! ## 3. The table -/

/-- The first location of each label, by the name that it is looked up by. -/
structure LabelTable where
  entries : List (String × LabelLocation)
  deriving DecidableEq, Repr, Inhabited

namespace LabelTable

/-- A table with a further label, which changes nothing if the name is taken. -/
def add (table : LabelTable) (name : String) (location : LabelLocation) : LabelTable :=
  if (table.entries.lookup name).isSome then table
  else ⟨table.entries ++ [(name, location)]⟩

/-- The table of a body. -/
def ofBody (body : Block) : LabelTable :=
  (labelsInBlock [] 0 body).foldl (fun table (name, location) => table.add name location) ⟨[]⟩

/-- The location of a label, sought without regard to case. -/
def get? (table : LabelTable) (name : String) : Option LabelLocation :=
  table.entries.lookup (Text.fold name)

def contains (table : LabelTable) (name : String) : Bool := (table.get? name).isSome

/-- The number of different labels. -/
def size (table : LabelTable) : Nat := table.entries.length

def isEmpty (table : LabelTable) : Bool := table.entries.isEmpty

/-- The names of all labels as they are looked up. -/
def names (table : LabelTable) : List String := table.entries.map (·.1)

end LabelTable

end BasicCheck
