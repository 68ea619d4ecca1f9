import Multiequation.Proofs.Relational.GroundAssignment
import Multiequation.Relational.Goal

/-!
# Goals as formulas

A goal that calls no relation is read as a formula over ground values: a disjunction as "or", a
conjunction as "and", a fresh variable as "there is". A formula depends on what its variables and the
names in its scope stand for only. The variables in use stand below the counter of a state, so that
nothing depends on a fresh one yet.
-/

namespace Multiequation.Relational

open Bindings

variable {scope scope' : Scope} {goal : Goal}
  {θ η ζ : ℕ → Value} {c d : ℕ}

/-! ### The formula of a goal -/

namespace Operand

/-- The variables of an operand, from left to right. -/
def vars : Operand → List ℕ
  | .var n => [n]
  | .pair car cdr => car.vars ++ cdr.vars
  | _ => []

/-- What an operand stands for under an assignment, if all its names stand for something. -/
def denote? (θ : ℕ → Value) (scope : Scope) (v : Operand) : Option Value :=
  (v.eval? scope).map (·.bind θ)

theorem denote?_pair (car cdr : Operand) :
    (pair car cdr).denote? θ scope =
      (car.denote? θ scope).bind fun u => (cdr.denote? θ scope).map (.pair u) := by
  rw [denote?, denote?, denote?, eval?]
  cases car.eval? scope with
  | none => rfl
  | some u => cases cdr.eval? scope <;> rfl

/-- Names stand for the same values under two assignments in their scopes. -/
def SameNames (θ η : ℕ → Value) (scope scope' : Scope) : Prop :=
  ∀ name, (Operand.ref name).denote? θ scope = (Operand.ref name).denote? η scope'

theorem denote?_congr {v : Operand} (hvars : ∀ n ∈ v.vars, θ n = η n)
    (hnames : SameNames θ η scope scope') : v.denote? θ scope = v.denote? η scope' := by
  induction v with
  | var n => exact congrArg some (hvars n List.mem_cons_self)
  | ref name => exact hnames name
  | pair car cdr ihcar ihcdr =>
    obtain ⟨hcar, hcdr⟩ := List.forall_mem_append.1 hvars
    rw [denote?_pair, denote?_pair, ihcar hcar, ihcdr hcdr]
  | _ => rfl

theorem SameNames.cons {u v : Value} (h : SameNames θ η scope scope') (huv : u.bind θ = v.bind η)
    (name : String) : SameNames θ η ((name, u) :: scope) ((name, v) :: scope') := by
  intro other
  have hother := h other
  rw [denote?, denote?, eval?, eval?] at hother ⊢
  rw [List.lookup_cons, List.lookup_cons]
  cases other == name with
  | true => exact congrArg some huv
  | false => exact hother

end Operand

open Operand (SameNames)

namespace Goal

/-- The variables of a goal, from left to right. -/
def vars : Goal → List ℕ
  | .eq left right => left.vars ++ right.vars
  | .fresh _ goal | .delay goal => goal.vars
  | .disj left right | .conj left right => left.vars ++ right.vars
  | .call _ args => args.flatMap Operand.vars
  | _ => []

/-- The relations that a goal calls. -/
def calls : Goal → List String
  | .fresh _ goal | .delay goal => goal.calls
  | .disj left right | .conj left right => left.calls ++ right.calls
  | .call relation _ => [relation]
  | _ => []

/-- The formula of a goal. An equation with a name that stands for nothing does not hold, and neither
does a call. -/
def Holds (θ : ℕ → Value) : Scope → Goal → Prop
  | _, .succeed => True
  | _, .fail => False
  | scope, .eq left right => ∃ v, left.denote? θ scope = some v ∧ right.denote? θ scope = some v
  | scope, .fresh name goal => ∃ a : Value, a.vars = [] ∧ goal.Holds θ ((name, a) :: scope)
  | scope, .disj left right => left.Holds θ scope ∨ right.Holds θ scope
  | scope, .conj left right => left.Holds θ scope ∧ right.Holds θ scope
  | scope, .delay goal => goal.Holds θ scope
  | _, .call _ _ => False

/-- A formula depends on what its variables and names stand for only. -/
theorem holds_congr (hvars : ∀ n ∈ goal.vars, θ n = η n)
    (hnames : SameNames θ η scope scope') : goal.Holds θ scope ↔ goal.Holds η scope' := by
  induction goal generalizing scope scope' with
  | succeed | fail | call => exact Iff.rfl
  | eq left right =>
    obtain ⟨hleft, hright⟩ := List.forall_mem_append.1 hvars
    rw [Holds, Holds, Operand.denote?_congr hleft hnames, Operand.denote?_congr hright hnames]
  | fresh name goal ih =>
    refine exists_congr fun a => and_congr_right fun ha => ih hvars (hnames.cons ?_ name)
    rw [Value.bind_of_vars_eq_nil ha, Value.bind_of_vars_eq_nil ha]
  | disj left right ihleft ihright =>
    obtain ⟨hleft, hright⟩ := List.forall_mem_append.1 hvars
    exact or_congr (ihleft hleft hnames) (ihright hright hnames)
  | conj left right ihleft ihright =>
    obtain ⟨hleft, hright⟩ := List.forall_mem_append.1 hvars
    exact and_congr (ihleft hleft hnames) (ihright hright hnames)
  | delay goal ih => exact ih hvars hnames

end Goal

/-! ### Variables below the counter -/

/-- The two assignments give the same values to the variables below `c`. -/
def AgreeBelow (c : ℕ) (θ η : ℕ → Value) : Prop := ∀ n < c, θ n = η n

theorem AgreeBelow.mono (h : AgreeBelow d θ η) (hcd : c ≤ d) : AgreeBelow c θ η :=
  fun n hn => h n (hn.trans_le hcd)

theorem AgreeBelow.trans (h : AgreeBelow c θ η) (h' : AgreeBelow c η ζ) : AgreeBelow c θ ζ :=
  fun n hn => (h n hn).trans (h' n hn)

theorem agreeBelow_update (c : ℕ) (θ : ℕ → Value) (a : Value) :
    AgreeBelow c (Function.update θ c a) θ :=
  fun _ hn => Function.update_of_ne hn.ne a θ

/-- All variables of the bindings are below `c`. -/
def Bindings.Below (c : ℕ) (s : Bindings) : Prop :=
  ∀ e ∈ s.entries, e.1 < c ∧ ∀ n ∈ e.2.vars, n < c

/-- All variables of the values that names stand for are below `c`. -/
def Scope.Below (c : ℕ) (scope : Scope) : Prop := ∀ b ∈ scope, ∀ n ∈ b.2.vars, n < c

theorem Scope.Below.mono (h : Scope.Below c scope) (hcd : c ≤ d) : Scope.Below d scope :=
  fun b hb n hn => (h b hb n hn).trans_le hcd

theorem Bindings.Below.mono {s : Bindings} (h : s.Below c) (hcd : c ≤ d) : s.Below d :=
  fun e he => ⟨(h e he).1.trans_le hcd, fun n hn => ((h e he).2 n hn).trans_le hcd⟩

theorem Bindings.Below.satisfies_congr {s : Bindings} (hs : s.Below c) (h : AgreeBelow c θ η) :
    Satisfies θ s ↔ Satisfies η s := by
  refine forall₂_congr fun e he => ?_
  obtain ⟨hvar, hvars⟩ := hs e he
  rw [h _ hvar, Value.bind_congr _ fun n hn => h n (hvars n hn)]

/-- Unification brings in no variables of its own. -/
theorem Bindings.Below.unify {s s' : Bindings} {u v : Value} (hbelow : s.Below c)
    (hs : s.Triangular) (hu : ∀ n ∈ u.vars, n < c) (hv : ∀ n ∈ v.vars, n < c)
    (h : Bindings.unify u v s = some s') : s'.Below c := by
  let M := u.size + v.size + s.weight
  have hwithin : s.Within (Finset.range c) M := by
    intro e he
    obtain ⟨hvar, hvars⟩ := hbelow e he
    have := size_le_weight he
    exact ⟨Finset.mem_range.2 hvar, fun n hn => Finset.mem_range.2 (hvars n hn), by omega⟩
  have hwithin' := (hs.unified h).within hwithin
    ⟨fun n hn => Finset.mem_range.2 (hu n hn), by omega⟩
    ⟨fun n hn => Finset.mem_range.2 (hv n hn), by omega⟩
  intro e he
  exact ⟨Finset.mem_range.1 (hwithin' e he).1,
    fun n hn => Finset.mem_range.1 ((hwithin' e he).2.vars n hn)⟩

end Multiequation.Relational
