import Multiequation.Equation.Parser
import Multiequation.Solve

/-!
# From a source to its solution

A source is read and its equations are solved. An error is told as a chain of messages, from the stage
that failed to what made it fail.
-/

namespace Multiequation

/-- Why a source has no solution. -/
inductive ProcessError
  | parse (e : ParseError)
  | solve (e : SolveError)
  deriving DecidableEq

namespace ProcessError

/-- The messages of an error, the failed stage first. -/
def chain (source : Source) : ProcessError → List String
  | .parse e => "parse error" :: e.chain source
  | .solve e => ["unification failed", e.message]

/-- All messages of an error in one text. -/
def message (source : Source) (e : ProcessError) : String :=
  ": ".intercalate (e.chain source)

end ProcessError

/-- Solves the equations of a source, and tells what was done. -/
def Source.processWithJournal (source : Source) : Except ProcessError Solution × Journal :=
  match source.equations with
  | .error e => (.error (.parse e), #[])
  | .ok equations =>
    let (result, journal) := solveWithJournal equations
    (result.mapError .solve, #[.parsed source.name equations.length] ++ journal)

/-- Solves the equations of a source. -/
def Source.process (source : Source) : Except ProcessError Solution :=
  source.processWithJournal.1

end Multiequation
