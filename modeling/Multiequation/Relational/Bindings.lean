import Multiequation.Relational.Value

/-!
# Triangular bindings and unification

Bindings map variables to values that may themselves hold bound variables. Walking follows the
bindings from a variable to an unbound variable or another value. The bindings made by unification
never lead from a variable back to itself, so a walk passes every variable once at most, and the
depths below count what acyclic bindings can reach.
-/

namespace Multiequation.Relational

/-- Variables bound to values, the newest binding first. -/
structure Bindings where
  entries : List (Nat × Value)
  deriving DecidableEq

namespace Bindings

/-- No bindings. -/
def empty : Bindings := ⟨[]⟩

instance : Inhabited Bindings := ⟨empty⟩

/-- Binds a variable, in front of all other bindings. -/
def extend (s : Bindings) (n : Nat) (v : Value) : Bindings := ⟨(n, v) :: s.entries⟩

/-- The value that the newest binding gives to a variable. -/
def get? (s : Bindings) (n : Nat) : Option Value := s.entries.lookup n

@[simp] theorem get?_empty (n : Nat) : empty.get? n = none := rfl

/-- The newest binding of a variable hides the older ones. -/
theorem get?_extend (s : Bindings) (n m : Nat) (v : Value) :
    (s.extend n v).get? m = if m = n then some v else s.get? m := by
  by_cases h : m = n
  · simp [get?, extend, h]
  · have hne : (m == n) = false := by simp [h]
    simp [get?, extend, List.lookup_cons, hne, h]

/-- The number of bindings. -/
def size (s : Bindings) : Nat := s.entries.length

/-- Whether there are no bindings. -/
def isEmpty (s : Bindings) : Bool := s.entries.isEmpty

/-- A bound on the number of bound variables and on the size of all bound values together. -/
def weight (s : Bindings) : Nat :=
  s.entries.foldr (fun e n => e.2.size + 1 + n) 0

/-! ### Walking -/

/-- Follows at most `k` bindings. -/
def walkWithin (s : Bindings) : Nat → Value → Value
  | k + 1, .var n =>
    match s.get? n with
    | some v => s.walkWithin k v
    | none => .var n
  | _, v => v

/-- Follows bindings to an unbound variable or another value. -/
def walk (s : Bindings) (v : Value) : Value :=
  s.walkWithin s.size v

/-- Walks a value and its parts, at most `k` deep. -/
def walkStarWithin (s : Bindings) : Nat → Value → Value
  | 0, v => v
  | k + 1, v =>
    match s.walk v with
    | .pair car cdr => .pair (s.walkStarWithin k car) (s.walkStarWithin k cdr)
    | v => v

/-- The value with all bindings carried out. -/
def walkStar (s : Bindings) (v : Value) : Value :=
  s.walkStarWithin (v.size + s.weight) v

/-- Whether a variable occurs in a walked value, at most `k` deep. -/
def occursWithin (s : Bindings) (n : Nat) : Nat → Value → Bool
  | 0, _ => false
  | k + 1, v =>
    match s.walk v with
    | .var m => m == n
    | .pair car cdr => s.occursWithin n k car || s.occursWithin n k cdr
    | _ => false

/-- Whether a variable occurs in a value with all bindings carried out. -/
def occurs (s : Bindings) (n : Nat) (v : Value) : Bool :=
  s.occursWithin n (v.size + s.weight) v

/-- Binds a variable unless it occurs in the value. -/
def extendChecked (s : Bindings) (n : Nat) (v : Value) : Option Bindings :=
  if s.occurs n v then none else some (s.extend n v)

/-! ### Unification -/

/-- Unifies two values whose parts are at most `k` deep. -/
def unifyWithin : Nat → Value → Value → Bindings → Option Bindings
  | 0, _, _, _ => none
  | k + 1, u, v, s =>
    match s.walk u, s.walk v with
    | .var m, .var n => if m = n then some s else s.extendChecked m (.var n)
    | .var m, v => s.extendChecked m v
    | u, .var n => s.extendChecked n u
    | .pair car cdr, .pair car' cdr' => do unifyWithin k cdr cdr' (← unifyWithin k car car' s)
    | u, v => if u = v then some s else none

/-- Extends the bindings so that two values become equal. A part is reached through each variable once
at most and through a stretch of one value each time, which bounds the depth by a square. -/
def unify (u v : Value) (s : Bindings) : Option Bindings :=
  let weight := u.size + v.size + s.weight
  unifyWithin ((weight + 1) * (weight + 1)) u v s

end Bindings

end Multiequation.Relational
