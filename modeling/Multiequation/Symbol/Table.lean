import Multiequation.Symbol

/-!
# Numbering symbols

A table numbers the names it has been shown, in order of first appearance. It keeps the number of every
name and the name of every number. A name is looked up first; a name that is not found is looked up
once more together with its insertion, so that a name inserted in between keeps the number it was given.
-/

namespace Multiequation

/-- The numbers of the names shown so far, and the names in the order of their numbers. -/
structure SymbolTable where
  ids : List (String × Nat)
  names : List String
  deriving DecidableEq

namespace SymbolTable

/-- The table that has seen no name. -/
def empty : SymbolTable := ⟨[], []⟩

/-- The number of a name that is in the table. -/
def lookup? (table : SymbolTable) (name : String) : Option Nat :=
  table.ids.lookup name

/-- The name with the given number. -/
def name? (table : SymbolTable) (id : Nat) : Option String :=
  table.names[id]?

/-- How the symbol with the given number is shown; a number that was not given out stands behind a
hash sign. -/
def text (table : SymbolTable) (id : Nat) : String :=
  (table.name? id).getD s!"#{id}"

/-- The number of a name, which is added at the end if it is not in the table. -/
def insert (table : SymbolTable) (name : String) : Nat × SymbolTable :=
  match table.lookup? name with
  | some id => (id, table)
  | none =>
    let id := table.names.length
    (id, ⟨(name, id) :: table.ids, table.names ++ [name]⟩)

/-- The number of a valid name; the table grows only when the name is new. -/
def intern (table : SymbolTable) (name : String) : Except InvalidSymbol (Nat × SymbolTable) :=
  match Symbol.ofString name with
  | .error e => .error e
  | .ok symbol =>
    match table.lookup? symbol.name with
    | some id => .ok (id, table)
    | none => .ok (table.insert symbol.name)

end SymbolTable

end Multiequation
