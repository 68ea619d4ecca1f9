import Multiequation.Relational.Goal
import Mathlib.Tactic

/-!
# The search for bindings that satisfy equations

A conjunction of equations is never suspended and has one state at most, whose bindings are made by
unifying the values of one equation after the other. That state is what the search for a first answer
finds.
-/

namespace Multiequation.Relational

namespace Answers

variable {θ α : Type}

theorem unit_bind (a : α) (next : α → Answers θ α) : (unit a).bind next = (next a).mplus empty := rfl

end Answers

variable {relations : Relations} {scope : Scope} {state : State}

/-- A value mentions no names. -/
@[simp] theorem Operand.eval?_ofValue (scope : Scope) (v : Value) :
    (Operand.ofValue v).eval? scope = some v := by
  induction v with
  | pair car cdr ihcar ihcdr =>
    rw [ofValue, eval?, ihcar, ihcdr]
    rfl
  | _ => rfl

namespace Goal

/-- The search that has one state with the given bindings, or none. -/
def found (state : State) : Option Bindings → Search
  | some bindings => .unit { state with bindings }
  | none => .empty

theorem apply_eq_ofValue (u v : Value) (state : State) :
    (Goal.eq (.ofValue u) (.ofValue v)).apply relations scope state =
      found state (Bindings.unify u v state.bindings) := by
  rw [apply, Operand.eval?_ofValue, Operand.eval?_ofValue]
  dsimp only
  cases Bindings.unify u v state.bindings <;> rfl

theorem apply_conj_of_found {goal : Goal} {result : Option Bindings} (u v : Value)
    (h : goal.apply relations scope state = found state result) :
    (goal.conj (.eq (.ofValue u) (.ofValue v))).apply relations scope state =
      found state (result.bind (Bindings.unify u v)) := by
  rw [apply, h]
  cases result with
  | none => rfl
  | some s =>
    rw [found, Answers.unit_bind, apply_eq_ofValue, Option.bind_some]
    dsimp only
    cases Bindings.unify u v s <;> rfl

/-- A conjunction of equations unifies the values of one equation after the other. -/
theorem apply_ofPairs (ps : List (Value × Value)) (state : State) :
    (ofPairs ps).apply relations scope state =
      found state (ps.foldlM (fun s p => Bindings.unify p.1 p.2 s) state.bindings) := by
  have hfold : ∀ (goal : Goal) (result : Option Bindings),
      goal.apply relations scope state = found state result →
      (ps.foldl (fun goal p => .conj goal (.eq (.ofValue p.1) (.ofValue p.2))) goal).apply
          relations scope state =
        found state (result.bind (ps.foldlM fun s p => Bindings.unify p.1 p.2 s)) := by
    induction ps with
    | nil =>
      intro goal result h
      rw [List.foldl_nil, h]
      cases result <;> rfl
    | cons p ps ih =>
      intro goal result h
      rw [List.foldl_cons, ih _ _ (apply_conj_of_found p.1 p.2 h)]
      cases result <;> rfl
  exact hfold .succeed (some state.bindings) rfl

end Goal

/-- The first state found has the bindings that unifying one pair after the other makes. -/
theorem unifyAll_eq (ps : List (Value × Value)) (counter : ℕ) :
    unifyAll ps counter = ps.foldlM (fun s p => Bindings.unify p.1 p.2 s) .empty := by
  rw [unifyAll, Goal.apply_ofPairs]
  dsimp only
  cases ps.foldlM (fun s p => Bindings.unify p.1 p.2 s) .empty <;> rfl

end Multiequation.Relational
