import Multiequation.Index
import Multiequation.Symbol

/-!
# Failures of the engine

A clash says that two terms can not be made equal. The other failures say that the engine was given
a malformed term, a wrong count or an unknown variable.
-/

namespace Multiequation

/-- Why two applications can not be made equal. -/
inductive Clash
  | functors (left right : Symbol)
  | symbols (left right : Symbol)
  | arities (functor : Symbol) (left right : Nat)
  deriving DecidableEq

/-- Why the engine stopped. -/
inductive Failure
  | clash (c : Clash)
  | emptyCell
  | noReadyClasses (remaining : Nat)
  | emptyQueue
  | pendingUnderflow (id : ClassId)
  | unknownVariable (v : Var)
  deriving DecidableEq

/-- Whether a failure is about the equations or about the state of the engine. -/
inductive FailureKind
  | unification
  | invariant
  deriving DecidableEq

namespace Clash

/-- The short name of a clash. -/
def reason : Clash → String
  | .functors _ _ => "functor-clash"
  | .symbols _ _ => "symbol-mismatch"
  | .arities _ _ _ => "arity-mismatch"

/-- What clashes with what. -/
def detail : Clash → String
  | .functors left right => left.name ++ " vs " ++ right.name
  | .symbols left right => left.name ++ " vs " ++ right.name
  | .arities functor left right =>
    functor.name ++ s!" applied to {left} and to {right} arguments"

end Clash

namespace Failure

/-- Clashes are about the equations, all other failures about the state of the engine. -/
def kind : Failure → FailureKind
  | .clash _ => .unification
  | _ => .invariant

/-- The short name of a failure. -/
def reason : Failure → String
  | .clash c => c.reason
  | .emptyCell => "empty-input"
  | .noReadyClasses _ => "no-ready-classes"
  | .emptyQueue => "empty-queue"
  | .pendingUnderflow _ => "pending-underflow"
  | .unknownVariable _ => "unknown-variable"

/-- What happened, in words. -/
def detail : Failure → String
  | .clash c => c.detail
  | .emptyCell => "argument cell holds neither variables nor a subterm"
  | .noReadyClasses remaining => s!"{remaining} classes remain but none is ready"
  | .emptyQueue => "dequeue on an empty queue"
  | .pendingUnderflow id => s!"pending count of {id.text} would drop below zero"
  | .unknownVariable v => s!"no class owns {v.text}"

/-- The message of a failure. -/
def message (e : Failure) : String :=
  e.reason ++ ": " ++ e.detail

end Failure

end Multiequation
