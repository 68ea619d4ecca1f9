import Multiequation.Relational.Bindings
import Multiequation.Relational.Answers

/-!
# Goals

A goal maps a state, which consists of bindings and a counter for fresh variables, to a stream of
states. Goals are built from equations by disjunction, conjunction and fresh variables; a delayed goal
suspends the stream before it starts. A relation is a goal with parameters, and a call of it is
delayed, so that relations may call themselves.
-/

namespace Multiequation.Relational

/-- A value that may mention names. -/
inductive Operand
  | var (n : Nat)
  | sym (symbol : Symbol)
  | bool (b : Bool)
  | nil
  | pair (car cdr : Operand)
  | ref (name : String)
  deriving DecidableEq

/-- What names stand for, the innermost first. -/
abbrev Scope := List (String × Value)

namespace Operand

/-- The list of the given operands. -/
def ofList : List Operand → Operand
  | [] => .nil
  | v :: vs => .pair v (ofList vs)

/-- A value as an operand that mentions no names. -/
def ofValue : Value → Operand
  | .var n => .var n
  | .sym symbol => .sym symbol
  | .bool b => .bool b
  | .nil => .nil
  | .pair car cdr => .pair (ofValue car) (ofValue cdr)

/-- The value of an operand, if all its names stand for something. -/
def eval? (scope : Scope) : Operand → Option Value
  | .var n => some (.var n)
  | .sym symbol => some (.sym symbol)
  | .bool b => some (.bool b)
  | .nil => some .nil
  | .pair car cdr => do return .pair (← car.eval? scope) (← cdr.eval? scope)
  | .ref name => scope.lookup name

end Operand

/-- A goal over values that mention names. -/
inductive Goal
  | succeed
  | fail
  | eq (left right : Operand)
  | fresh (name : String) (goal : Goal)
  | disj (left right : Goal)
  | conj (left right : Goal)
  | delay (goal : Goal)
  | call (relation : String) (args : List Operand)
  deriving DecidableEq

/-- A goal with parameters; it sees no other names. -/
structure Relation where
  params : List String
  body : Goal
  deriving DecidableEq

/-- Relations by name. -/
abbrev Relations := List (String × Relation)

/-- A word as a number. -/
instance coeWord : Coe UInt64 Nat := ⟨UInt64.toNat⟩

/-- A number as a word: its remainder, if it does not fit. -/
instance coeNumber : Coe Nat UInt64 := ⟨UInt64.ofNat⟩

/-- Bindings and the number of the next fresh variable, which is a machine word. -/
structure State where
  bindings : Bindings
  counter : UInt64
  deriving DecidableEq

/-- A goal that has not been started on a state. -/
structure Job where
  goal : Goal
  scope : Scope
  state : State

/-- A stream of states. -/
abbrev Search := Answers Job State

/-- What the parameters of a relation stand for in a call. -/
def Relation.scope (relation : Relation) (args : List Value) : Scope :=
  (relation.params.zip args).reverse

namespace Goal

/-- The states that satisfy a goal and extend the given one. A goal that uses a name without meaning
has none. The counter is not checked: behind the last word comes zero again. -/
def apply (relations : Relations) (scope : Scope) : Goal → State → Search
  | .succeed, state => .unit state
  | .fail, _ => .empty
  | .eq left right, state =>
    match left.eval? scope, right.eval? scope with
    | some u, some v =>
      match Bindings.unify u v state.bindings with
      | some bindings => .unit { state with bindings }
      | none => .empty
    | _, _ => .empty
  | .fresh name goal, state =>
    goal.apply relations ((name, .var state.counter) :: scope)
      { state with counter := state.counter + 1 }
  | .disj left right, state =>
    (left.apply relations scope state).mplus (right.apply relations scope state)
  | .conj left right, state => (left.apply relations scope state).bind (right.apply relations scope)
  | .delay goal, state => .immature (.delayed ⟨goal, scope, state⟩)
  | .call name args, state =>
    match relations.lookup name, args.mapM (Operand.eval? scope) with
    | some relation, some values =>
      .immature (.delayed ⟨relation.body, relation.scope values, state⟩)
    | _, _ => .empty

end Goal

/-- Starts a job. -/
def Job.resume (relations : Relations) (job : Job) : Search :=
  job.goal.apply relations job.scope job.state

/-- The conjunction of equations between the two values of each pair. -/
def Goal.ofPairs (pairs : List (Value × Value)) : Goal :=
  pairs.foldl (fun goal p => .conj goal (.eq (.ofValue p.1) (.ofValue p.2))) .succeed

/-- The bindings of the first state that satisfies the equations between the values of each pair; such
a goal is never suspended. -/
def unifyAll (pairs : List (Value × Value)) (counter : Nat) : Option Bindings := do
  let states ← ((Goal.ofPairs pairs).apply [] [] ⟨.empty, counter⟩).takeWithin (Job.resume []) 1 1
  return (← states.head?).bindings

end Multiequation.Relational
