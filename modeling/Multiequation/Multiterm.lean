import Multiequation.Queue

/-!
# Multiterms

A multiterm is a symbol applied to argument cells. A cell holds the variables that are claimed equal
at its place and, if there is one, the multiterm that is claimed equal to them.
-/

namespace Multiequation

mutual

/-- What is claimed equal at one argument place. -/
structure Cell where
  vars : Queue Var
  term : Option Multiterm

/-- A symbol applied to argument cells. -/
structure Multiterm where
  functor : Symbol
  args : List Cell

end

/-! ### Equality -/

mutual

/-- Decides whether two multiterms are equal. -/
def Multiterm.decEq : (s t : Multiterm) → Decidable (s = t)
  | ⟨f, as⟩, ⟨g, bs⟩ =>
    if h : f = g then
      match Cell.decEqArgs as bs with
      | isTrue hargs => isTrue (by rw [h, hargs])
      | isFalse hargs => isFalse (by simp [hargs])
    else isFalse (by simp [h])
termination_by structural s => s

/-- Decides whether two optional multiterms are equal. -/
def Multiterm.decEqOption : (s t : Option Multiterm) → Decidable (s = t)
  | none, none => isTrue rfl
  | none, some _ => isFalse nofun
  | some _, none => isFalse nofun
  | some s, some t =>
    match Multiterm.decEq s t with
    | isTrue h => isTrue (by rw [h])
    | isFalse h => isFalse (by simp [h])
termination_by structural s => s

/-- Decides whether two lists of cells are equal. -/
def Cell.decEqArgs : (as bs : List Cell) → Decidable (as = bs)
  | [], [] => isTrue rfl
  | [], _ :: _ => isFalse nofun
  | _ :: _, [] => isFalse nofun
  | ⟨vs, s⟩ :: as, ⟨ws, t⟩ :: bs =>
    if h : vs = ws then
      match Multiterm.decEqOption s t with
      | isTrue hterm =>
        match Cell.decEqArgs as bs with
        | isTrue hrest => isTrue (by rw [h, hterm, hrest])
        | isFalse hrest => isFalse (by simp [hrest])
      | isFalse hterm => isFalse (by simp [hterm])
    else isFalse (by simp [h])
termination_by structural as => as

end

instance : DecidableEq Multiterm := Multiterm.decEq

instance : DecidableEq Cell := fun a b =>
  decidable_of_iff (a.vars = b.vars ∧ a.term = b.term) <| by
    cases a; cases b; simp

namespace Cell

/-- The cell of one variable. -/
def var (v : Var) : Cell := ⟨.singleton v, none⟩

/-- The cell of one multiterm. -/
def nested (t : Multiterm) : Cell := ⟨.empty, some t⟩

/-- Whether the cell is a placeholder: one variable and no multiterm. -/
def isCollapsed (cell : Cell) : Bool :=
  cell.vars.length == 1 && cell.term.isNone

end Cell

namespace Multiterm

/-- The multiterm that consists of a symbol alone. -/
def leaf (symbol : Symbol) : Multiterm := ⟨symbol, []⟩

/-- Whether the multiterm has no argument. -/
def isLeaf (t : Multiterm) : Bool := t.args.isEmpty

/-- The number of arguments. -/
def arity (t : Multiterm) : Nat := t.args.length

end Multiterm

/-! ### Occurrences -/

mutual

/-- The occurrences of variables at any depth: of each cell its own, then those of its multiterm. -/
def Multiterm.vars : Multiterm → List Var
  | ⟨_, args⟩ => Cell.varsOfArgs args
termination_by structural t => t

/-- The occurrences of variables in an optional multiterm. -/
def Multiterm.varsOfOption : Option Multiterm → List Var
  | none => []
  | some t => t.vars
termination_by structural t => t

/-- The occurrences of variables in a list of cells. -/
def Cell.varsOfArgs : List Cell → List Var
  | [] => []
  | ⟨vs, t⟩ :: cells => vs.toList ++ Multiterm.varsOfOption t ++ Cell.varsOfArgs cells
termination_by structural cells => cells

end

@[simp] theorem Multiterm.vars_mk (f : Symbol) (args : List Cell) :
    Multiterm.vars ⟨f, args⟩ = Cell.varsOfArgs args := rfl

@[simp] theorem Multiterm.varsOfOption_none : Multiterm.varsOfOption none = [] := rfl

@[simp] theorem Multiterm.varsOfOption_some (t : Multiterm) :
    Multiterm.varsOfOption (some t) = t.vars := rfl

@[simp] theorem Cell.varsOfArgs_nil : Cell.varsOfArgs [] = [] := rfl

@[simp] theorem Cell.varsOfArgs_cons (c : Cell) (cells : List Cell) :
    Cell.varsOfArgs (c :: cells) =
      c.vars.toList ++ Multiterm.varsOfOption c.term ++ Cell.varsOfArgs cells := by
  cases c; rfl

theorem Cell.varsOfArgs_append (as bs : List Cell) :
    Cell.varsOfArgs (as ++ bs) = Cell.varsOfArgs as ++ Cell.varsOfArgs bs := by
  induction as with
  | nil => rfl
  | cons a as ih => simp [ih]

end Multiequation
