import Multiequation.Symbol

/-!
# First-order terms and equations

A term is a variable or a symbol applied to terms; a constant is a symbol applied to none. A term is
printed with its arguments in parentheses, separated by commas; a constant is its bare name.
-/

namespace Multiequation

/-- A first-order term. -/
inductive Term
  | var (name : String)
  | app (functor : Symbol) (args : List Term)

namespace Term

/-- The term that consists of a symbol alone. -/
def const (symbol : Symbol) : Term :=
  .app symbol []

/-! ### Equality -/

mutual

/-- Decides whether two terms are equal. -/
def decEq : (s t : Term) → Decidable (s = t)
  | .var x, .var y => if h : x = y then isTrue (by rw [h]) else isFalse (by simp [h])
  | .var _, .app _ _ => isFalse nofun
  | .app _ _, .var _ => isFalse nofun
  | .app f ss, .app g ts =>
    if h : f = g then
      match decEqArgs ss ts with
      | isTrue hargs => isTrue (by rw [h, hargs])
      | isFalse hargs => isFalse (by simp [hargs])
    else isFalse (by simp [h])

/-- Decides whether two lists of terms are equal. -/
def decEqArgs : (ss ts : List Term) → Decidable (ss = ts)
  | [], [] => isTrue rfl
  | [], _ :: _ => isFalse nofun
  | _ :: _, [] => isFalse nofun
  | s :: ss, t :: ts =>
    match decEq s t with
    | isTrue h =>
      match decEqArgs ss ts with
      | isTrue hrest => isTrue (by rw [h, hrest])
      | isFalse hrest => isFalse (by simp [hrest])
    | isFalse h => isFalse (by simp [h])

end

instance : DecidableEq Term := decEq

/-! ### Variables -/

mutual

/-- The occurrences of variables in a term, from left to right. -/
def vars : Term → List String
  | .var x => [x]
  | .app _ args => varsOfArgs args

/-- The occurrences of variables in a list of terms, from left to right. -/
def varsOfArgs : List Term → List String
  | [] => []
  | t :: ts => t.vars ++ varsOfArgs ts

end

/-! ### Replacing variables -/

mutual

/-- Replaces every variable by its image, once. -/
def bind (image : String → Term) : Term → Term
  | .var x => image x
  | .app f args => .app f (bindArgs image args)

/-- Replaces every variable of a list of terms by its image, once. -/
def bindArgs (image : String → Term) : List Term → List Term
  | [] => []
  | t :: ts => t.bind image :: bindArgs image ts

end

/-! ### Printing -/

mutual

/-- The text of a term. -/
def text : Term → String
  | .var x => x
  | .app f [] => f.name
  | .app f (t :: ts) => f.name ++ "(" ++ t.text ++ argsText ts

/-- The text of the arguments behind the first one, up to the closing parenthesis. -/
def argsText : List Term → String
  | [] => ")"
  | t :: ts => ", " ++ t.text ++ argsText ts

end

/-! ### The list functions in terms of `List` -/

theorem varsOfArgs_eq_flatMap (ts : List Term) : varsOfArgs ts = ts.flatMap vars := by
  induction ts with
  | nil => rfl
  | cons t ts ih => simp [varsOfArgs, ih]

theorem bindArgs_eq_map (image : String → Term) (ts : List Term) :
    bindArgs image ts = ts.map (bind image) := by
  induction ts with
  | nil => rfl
  | cons t ts ih => simp [bindArgs, ih]

@[simp] theorem vars_var (x : String) : vars (.var x) = [x] := by simp [vars]

@[simp] theorem vars_app (f : Symbol) (args : List Term) :
    vars (.app f args) = args.flatMap vars := by
  simp [vars, varsOfArgs_eq_flatMap]

@[simp] theorem bind_var (image : String → Term) (x : String) : bind image (.var x) = image x := by
  simp [bind]

@[simp] theorem bind_app (image : String → Term) (f : Symbol) (args : List Term) :
    bind image (.app f args) = .app f (args.map (bind image)) := by
  simp [bind, bindArgs_eq_map]

end Term

/-- Two terms that are to be made equal. -/
structure Equation where
  left : Term
  right : Term
  deriving DecidableEq

namespace Equation

/-- The occurrences of variables, left side first. -/
def vars (e : Equation) : List String :=
  e.left.vars ++ e.right.vars

/-- The text of an equation. -/
def text (e : Equation) : String :=
  e.left.text ++ " = " ++ e.right.text

end Equation

end Multiequation
