/-!
# Variables and classes by number

Inside the engine a variable and a class of variables are known by number only. A variable is shown
with an underscore, a class with its word.
-/

namespace Multiequation

/-- A variable of the engine. -/
structure Var where
  index : Nat
  deriving DecidableEq

/-- A class of variables, by the number it was created with. -/
structure ClassId where
  index : Nat
  deriving DecidableEq

/-- The text of a variable. -/
def Var.text (v : Var) : String :=
  s!"_{v.index}"

/-- The text of a class. -/
def ClassId.text (id : ClassId) : String :=
  s!"class#{id.index}"

end Multiequation
