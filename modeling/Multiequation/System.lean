import Multiequation.Pool
import Multiequation.Variables

/-!
# Systems of equations as classes

Each equation is laid out in one class: that of its variable side if it has one, else that of a hidden
variable of its own. A variable side is merged into the class, an application is committed to it. Then
the occurrences are counted and the pool is made.
-/

namespace Multiequation

mutual

/-- The cell that claims a term at an argument place. -/
def Cell.ofTerm (number : String → Var) : Term → Cell
  | .var x => .var (number x)
  | .app f args => .nested ⟨f, Cell.ofTerms number args⟩

/-- The cells that claim the terms of an argument list. -/
def Cell.ofTerms (number : String → Var) : List Term → List Cell
  | [] => []
  | t :: ts => Cell.ofTerm number t :: Cell.ofTerms number ts

end

/-- A system that is being laid out. -/
structure Draft where
  partition : Partition
  vars : Variables
  journal : Journal

/-- Work on a draft; a failure leaves the draft as far as the work had got. -/
abbrev DraftM := EStateM Failure Draft

namespace Draft

/-- The draft that has a class for every written variable and no equation. -/
def start (equations : List Equation) : Draft :=
  let vars := Variables.ofEquations equations
  { partition := vars.names.foldl (fun p _ => p.freshVar.2) (.start .unbounded)
    vars
    journal := #[] }

/-- Works on the partition of the draft. -/
def onPartition {α : Type} (x : PartitionM α) : DraftM α :=
  Partition.lift Draft.partition (fun draft partition => { draft with partition }) x

/-- Makes an entry in the journal. -/
def record (e : Event) : DraftM Unit :=
  modify fun draft => { draft with journal := draft.journal.push e }

/-- Creates a hidden variable. -/
def freshHidden : DraftM Var := modifyGet fun draft =>
  let (v, partition) := draft.partition.freshVar
  let vars := { draft.vars with hidden := draft.vars.hidden + 1 }
  (v, { draft with partition, vars })

/-- The variable in whose class an equation is laid out. -/
def anchorOf (e : Equation) : DraftM Var := do
  match e.left, e.right with
  | .var x, _ => return (← get).vars.number x
  | _, .var x => return (← get).vars.number x
  | _, _ => freshHidden

/-- Adds one side of an equation to the class of its anchor. -/
def addSide (anchor : Var) (side : Term) : DraftM Unit := do
  let number := (← get).vars.number
  let id ← onPartition (Partition.findOwner anchor)
  match side with
  | .var x =>
    let other ← onPartition (Partition.findOwner (number x))
    ((← get).partition.mergeEvent? id other).forM record
    let _ ← onPartition (Partition.merge id other)
  | .app f args => onPartition (Partition.commit id ⟨f, Cell.ofTerms number args⟩)

/-- Adds an equation, left side first. -/
def addEquation (e : Equation) : DraftM Unit := do
  let anchor ← anchorOf e
  addSide anchor e.left
  addSide anchor e.right

/-- Lays out a system of equations and counts the occurrences. -/
def layOut (equations : List Equation) : DraftM Unit := do
  equations.forM addEquation
  onPartition Partition.countOccurrences
  let draft ← get
  record (.built equations.length draft.vars.size draft.partition.liveClasses.length)

end Draft

/-- The pool of a system of equations and the names of its variables. -/
def buildPool (equations : List Equation) : Except Failure (Pool × Variables) :=
  match Draft.layOut equations (Draft.start equations) with
  | .ok _ draft => .ok (.ofPartition draft.partition draft.journal, draft.vars)
  | .error e _ => .error e

end Multiequation
