import Multiequation.Index
import Multiequation.Term

/-!
# The variables of a system of equations

The variables that are written in a system come first, numbered by first occurrence. Behind them come
hidden variables, which stand for equations between two applications.
-/

namespace Multiequation

/-- The names of the written variables by number, and the number of hidden variables. -/
structure Variables where
  names : List String
  hidden : Nat
  deriving DecidableEq

namespace Variables

/-- The variables that are written in the equations. -/
def ofEquations (equations : List Equation) : Variables :=
  ⟨(equations.flatMap Equation.vars).eraseDups, 0⟩

/-- The number of all variables. -/
def size (vars : Variables) : Nat :=
  vars.names.length + vars.hidden

/-- Whether there is no variable. -/
def isEmpty (vars : Variables) : Bool :=
  vars.size == 0

/-- All variables in the order of their numbers. -/
def all (vars : Variables) : List Var :=
  (List.range vars.size).map Var.mk

/-- The written variables in the order of their numbers. -/
def written (vars : Variables) : List Var :=
  (List.range vars.names.length).map Var.mk

/-- The number of a written variable; a name that is not written gets the first hidden number. -/
def number (vars : Variables) (name : String) : Var :=
  ⟨vars.names.idxOf name⟩

/-- The number of a name if it is written. -/
def get? (vars : Variables) (name : String) : Option Var :=
  (vars.names.idxOf? name).map Var.mk

/-- Whether a variable is hidden. -/
def isHidden (vars : Variables) (v : Var) : Bool :=
  vars.names.length ≤ v.index

/-- The name of a variable. Hidden variables are numbered among themselves. -/
def name (vars : Variables) (v : Var) : String :=
  match vars.names[v.index]? with
  | some name => name
  | none => s!"?{v.index - vars.names.length}"

end Variables

end Multiequation
