import Multiequation.Pool
import Multiequation.Substitution
import Multiequation.Variables

/-!
# Solutions

A solved form is shown in two ways. The list of classes gives, for each class in the order of its
discharge, the written members and the multiterm over the first members of the classes it refers to.
The substitution gives each variable the fully expanded term; of a class without a multiterm the first
member stands for all others.
-/

namespace Multiequation

/-! ### Reading a multiterm back as a term -/

section ReadBack

variable {m : Type → Type} [Monad m] (owner? : Var → Option ClassId) (atClass : ClassId → m Term)

mutual

/-- The term of a multiterm, with `atClass` for each class it refers to. -/
def Multiterm.readM : Multiterm → m Term
  | ⟨f, args⟩ => do return .app f (← Cell.readArgsM args)
termination_by structural t => t

/-- The term of a cell without variables. -/
def Multiterm.readOptionM : Option Multiterm → m Term
  | none => return .var "_"
  | some t => t.readM
termination_by structural t => t

/-- The terms of a list of cells; the first variable of a cell tells the class it refers to. -/
def Cell.readArgsM : List Cell → m (List Term)
  | [] => return []
  | ⟨vs, t⟩ :: cells => do
    let first ← match vs.front?.bind owner? with
      | some id => atClass id
      | none => Multiterm.readOptionM t
    let rest ← Cell.readArgsM cells
    return first :: rest
termination_by structural cells => cells

end

end ReadBack

/-- The term of a multiterm, with `atClass` for each class it refers to. -/
def Multiterm.read (owner? : Var → Option ClassId) (atClass : ClassId → Term) (t : Multiterm) :
    Term :=
  Id.run (t.readM owner? fun id => pure (atClass id))

/-! ### Solutions -/

/-- The member with the least number, which stands for the whole class. -/
def Class.canonical? (cls : Class) : Option Var :=
  (cls.members.toList.map Var.index).min?.map Var.mk

/-- A class as it is shown to the user. -/
structure SolvedClass where
  members : List String
  term : Option Term
  deriving DecidableEq

/-- The text of a class: its members between braces, then its term if it has one. -/
def SolvedClass.text (c : SolvedClass) : String :=
  "\x7b" ++ ", ".intercalate c.members ++ "\x7d" ++
    match c.term with
    | none => ""
    | some t => " = " ++ t.text

/-- A solved form and the names of its variables. -/
structure Solution where
  form : SolvedForm
  vars : Variables

namespace Solution

/-- The contents of the class behind `id`. -/
def classAt (s : Solution) (id : ClassId) : Class :=
  s.form.partition.classAt id

/-- The name of the member that stands for the class behind `id`. -/
def canonicalName (s : Solution) (id : ClassId) : String :=
  match (s.classAt id).canonical? with
  | some v => s.vars.name v
  | none => "_"

/-- The variable that stands for the class behind `id`. -/
def canonicalVar (s : Solution) (id : ClassId) : Term :=
  .var (s.canonicalName id)

/-! ### Classes -/

/-- The term of a multiterm in which a variable stands for each class it refers to. -/
def render (s : Solution) (t : Multiterm) : Term :=
  t.read s.form.partition.owner? s.canonicalVar

/-- The written members of a class in the order of their numbers. -/
def writtenMembers (s : Solution) (cls : Class) : List Var :=
  (((cls.members.toList.filter fun v => !s.vars.isHidden v).map Var.index).mergeSort).map Var.mk

/-- The class as it is shown, unless all its members are hidden. -/
def solvedClass? (s : Solution) (cls : Class) : Option SolvedClass :=
  match s.writtenMembers cls with
  | [] => none
  | members => some ⟨members.map s.vars.name, cls.term.map s.render⟩

/-- The classes that have written members, in the order of their discharge. -/
def classes (s : Solution) : List SolvedClass :=
  s.form.classes.filterMap fun c => s.solvedClass? c.2

/-- One line for each class. -/
def text (s : Solution) : String :=
  String.join (s.classes.map fun c => c.text ++ "\n")

/-! ### The substitution -/

/-- The classes that have been expanded, with their terms. -/
abbrev Memo := List (ClassId × Term)

/-- The full term of the class behind `id`, which refers to classes at most `n` deep. -/
def expandWithin (s : Solution) : Nat → ClassId → StateM Memo Term
  | 0, id => return s.canonicalVar id
  | n + 1, id => do
    match (← get).lookup id with
    | some term => return term
    | none =>
      let term ← match (s.classAt id).term with
        | none => pure (s.canonicalVar id)
        | some t => t.readM s.form.partition.owner? (s.expandWithin n)
      modify ((id, term) :: ·)
      return term

/-- The full term of the class behind `id`. No class refers to itself, so the depth is bounded by the
number of classes. -/
def expand (s : Solution) (id : ClassId) : StateM Memo Term :=
  s.expandWithin (s.form.partition.records.size + 1) id

/-- The bindings of the given variables. The variable that stands for a class without a multiterm is
not bound. -/
def bindings (s : Solution) : List Var → StateM Memo (List (String × Term))
  | [] => return []
  | v :: vs => do
    match s.form.partition.owner? v with
    | none => s.bindings vs
    | some id =>
      let cls := s.classAt id
      if cls.term.isNone ∧ cls.canonical? = some v then
        s.bindings vs
      else
        let term ← s.expand id
        let rest ← s.bindings vs
        return (s.vars.name v, term) :: rest

/-- The most general unifier that the solution stands for. -/
def substitution (s : Solution) : Substitution :=
  .ofList (Id.run ((s.bindings s.vars.written).run [])).1

end Solution

end Multiequation
