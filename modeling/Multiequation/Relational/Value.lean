import Multiequation.Symbol

/-!
# Values of the relational layer

A value is a variable, a symbol, a truth value, the empty list or a pair. Pairs that end in the empty
list are printed as lists; another last part follows a dot.
-/

namespace Multiequation.Relational

/-- A value of the relational layer. -/
inductive Value
  | var (n : Nat)
  | sym (symbol : Symbol)
  | bool (b : Bool)
  | nil
  | pair (car cdr : Value)
  deriving DecidableEq

namespace Value

/-- The list of the given values. -/
def ofList : List Value → Value
  | [] => .nil
  | v :: vs => .pair v (ofList vs)

/-- The number of nodes of a value. -/
def size : Value → Nat
  | .pair car cdr => car.size + cdr.size + 1
  | _ => 1

/-- The text of a value. With `inList` the value is the rest of a list whose beginning has been
printed. -/
def textWithin (inList : Bool) : Value → String
  | .pair car cdr =>
    (if inList then " " else "(") ++ car.textWithin false ++ cdr.textWithin true
  | .nil => if inList then ")" else "()"
  | .var n => atom s!"#{n}"
  | .sym symbol => atom symbol.name
  | .bool b => atom (if b then "#t" else "#f")
where
  atom (text : String) : String := if inList then " . " ++ text ++ ")" else text

/-- The text of a value. -/
def text (v : Value) : String :=
  v.textWithin false

end Value

end Multiequation.Relational
