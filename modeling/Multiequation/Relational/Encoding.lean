import Multiequation.Relational.Goal
import Multiequation.Substitution

/-!
# Terms as values, and unification by bindings

A constant is encoded as its symbol, any other application as the list of its functor and arguments,
and variables are numbered in the order in which they are met. A system of equations is solved by
searching for bindings under which the encoded sides of all equations are equal and decoding what each
variable stands for.
-/

namespace Multiequation.Relational

/-- The names of the variables met so far; the number of a name is its position. -/
structure Encoding where
  names : List String
  deriving DecidableEq

namespace Encoding

/-- No variable has been met. -/
def empty : Encoding := ⟨[]⟩

/-- The number of variables met so far. -/
def size (enc : Encoding) : Nat := enc.names.length

/-- Whether no variable has been met. -/
def isEmpty (enc : Encoding) : Bool := enc.names.isEmpty

/-- The number of a variable, which is a new one when the variable has not been met. -/
def number (name : String) : StateM Encoding Nat := fun enc =>
  match enc.names.idxOf? name with
  | some n => (n, enc)
  | none => (enc.names.length, ⟨enc.names ++ [name]⟩)

mutual

/-- The value of a term. -/
def encode : Term → StateM Encoding Value
  | .var x => do return .var (← number x)
  | .app f args => do
    let tail ← encodeArgs args
    return if args.isEmpty then .sym f else .pair (.sym f) tail

/-- The list of the values of terms. -/
def encodeArgs : List Term → StateM Encoding Value
  | [] => return .nil
  | t :: ts => do
    let car ← encode t
    let cdr ← encodeArgs ts
    return .pair car cdr

end

mutual

/-- The term that a value encodes. -/
def decode? (enc : Encoding) : Value → Option Term
  | .var n => enc.names[n]?.map Term.var
  | .sym f => some (.const f)
  | .pair (.sym f) tail => (decodeArgs? enc tail).map (.app f)
  | _ => none

/-- The terms that a list encodes. -/
def decodeArgs? (enc : Encoding) : Value → Option (List Term)
  | .nil => some []
  | .pair car cdr => do return (← decode? enc car) :: (← decodeArgs? enc cdr)
  | _ => none

end

/-- The values of both sides of an equation. -/
def encodeEquation (e : Equation) : StateM Encoding (Value × Value) := do
  let left ← encode e.left
  let right ← encode e.right
  return (left, right)

end Encoding

/-- What the variables from number `n` on stand for; those that stand for themselves are left out. -/
def resolvedFrom (enc : Encoding) (s : Bindings) (n : Nat) :
    List String → Option (List (String × Term))
  | [] => some []
  | name :: names =>
    match s.walkStar (.var n) with
    | .var m =>
      if m = n then resolvedFrom enc s (n + 1) names
      else do return (name, ← enc.decode? (.var m)) :: (← resolvedFrom enc s (n + 1) names)
    | v => do return (name, ← enc.decode? v) :: (← resolvedFrom enc s (n + 1) names)

/-- A most general unifier of the equations, found by bindings. -/
def unifier? (equations : List Equation) : Option Substitution := do
  let (pairs, enc) := (equations.mapM Encoding.encodeEquation).run .empty
  let s ← unifyAll pairs enc.size
  return .ofList (← resolvedFrom enc s 0 enc.names)

end Multiequation.Relational
