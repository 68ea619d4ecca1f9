import Multiequation.Text.Quoted
import Multiequation.Unicode.Alphabetic
import Multiequation.Unicode.Number

/-!
# Function and constant symbols

A symbol is a valid name: one letter, number or underscore, then letters, numbers, underscores and
primes. Symbols are equal exactly when their names are.
-/

namespace Multiequation

open Multiequation.Unicode

/-- Whether a name may begin with `c`. -/
def isNameStart (c : Char) : Bool :=
  isAlphabetic c || isNumber c || c == '_'

/-- Whether a name may go on with `c`. -/
def isNameChar (c : Char) : Bool :=
  isNameStart c || c == '\x27'

/-- Whether the characters form the name of a symbol. -/
def isSymbolName : List Char → Bool
  | [] => false
  | c :: cs => isNameStart c && cs.all isNameChar

@[simp] theorem isSymbolName_nil : isSymbolName [] = false := rfl

@[simp] theorem isSymbolName_cons (c : Char) (cs : List Char) :
    isSymbolName (c :: cs) = (isNameStart c && cs.all isNameChar) := rfl

/-- A function or constant symbol. -/
structure Symbol where
  name : String
  name_valid : isSymbolName name.toList = true
  deriving DecidableEq

/-- A text that is not the name of a symbol. -/
structure InvalidSymbol where
  text : String
  deriving DecidableEq

namespace InvalidSymbol

/-- The message shown for a rejected name. -/
def message (e : InvalidSymbol) : String :=
  "invalid symbol: " ++ Text.Quoted.encode e.text

end InvalidSymbol

namespace Symbol

/-- The symbol with the given name. -/
def ofString (s : String) : Except InvalidSymbol Symbol :=
  if h : isSymbolName s.toList = true then .ok ⟨s, h⟩ else .error ⟨s⟩

@[ext] theorem ext_name {a b : Symbol} (h : a.name = b.name) : a = b := by
  cases a; cases b; cases h; rfl

theorem ofString_name (a : Symbol) : ofString a.name = .ok a := by
  simp [ofString, a.name_valid]

theorem ofString_eq_ok_iff {s : String} {a : Symbol} : ofString s = .ok a ↔ a.name = s := by
  constructor
  · intro h
    unfold ofString at h
    split at h
    · cases h; rfl
    · cases h
  · rintro rfl
    exact ofString_name a

end Symbol

end Multiequation
