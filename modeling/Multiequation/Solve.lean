import Multiequation.Solution
import Multiequation.System

/-!
# Solving systems of equations

A system is laid out in classes, and the classes are discharged. When classes are left but none is
ready, each of them refers to another one of them, so their members would have to contain themselves.
-/

namespace Multiequation

/-- Why a system has no solution. -/
inductive SolveError
  | occurs (vars : List String)
  | failure (e : Failure)
  deriving DecidableEq

/-- The message of an error. -/
def SolveError.message : SolveError → String
  | .occurs vars => "occurs check failed: " ++ ", ".intercalate vars ++ " would contain themselves"
  | .failure e => e.message

/-- The written members of the classes that are waiting, in the order of their numbers. -/
def Pool.stuckVars (pool : Pool) (vars : Variables) : List Var :=
  let members := pool.pendingClasses.flatMap fun id => (pool.partition.classAt id).members.toList
  (((members.filter fun v => !vars.isHidden v).map Var.index).mergeSort).map Var.mk

/-- The error for a failure of a run, and the journal of the run with what is added to it. -/
def Pool.solveError (pool : Pool) (vars : Variables) : Failure → SolveError × Journal
  | .noReadyClasses remaining =>
    match pool.stuckVars vars with
    | [] => (.failure (.noReadyClasses remaining), pool.journal)
    | stuck => (.occurs (stuck.map vars.name), pool.journal.push (.stalled remaining))
  | e => (.failure e, pool.journal)

/-- Solves a system, and tells what was done. -/
def solveWithJournal (equations : List Equation) : Except SolveError Solution × Journal :=
  match Draft.layOut equations (Draft.start equations) with
  | .error e draft => (.error (.failure e), draft.journal)
  | .ok _ draft =>
    match Pool.discharge (.ofPartition draft.partition draft.journal) with
    | .ok order pool =>
      (.ok ⟨⟨pool.partition, order⟩, draft.vars⟩,
        pool.journal.push (.solved equations.length order.length))
    | .error e pool =>
      let (error, journal) := pool.solveError draft.vars e
      (.error error, journal)

/-- Solves a system. -/
def solve (equations : List Equation) : Except SolveError Solution :=
  (solveWithJournal equations).1

end Multiequation
