import Multiequation.Relational.Bindings
import Mathlib.Tactic

/-!
# Assignments of values to variables

An assignment replaces every variable of a value. It satisfies bindings when it gives each bound
variable what it makes of the bound value. Bindings are triangular when no variable is bound twice and
the variables of a bound value stand below the variable that is bound to it.
-/

namespace Multiequation.Relational

namespace Value

/-- The variables of a value, from left to right. -/
def vars : Value → List ℕ
  | .var n => [n]
  | .pair car cdr => car.vars ++ cdr.vars
  | _ => []

/-- Replaces every variable of a value. -/
def bind (θ : ℕ → Value) : Value → Value
  | .var n => θ n
  | .pair car cdr => .pair (car.bind θ) (cdr.bind θ)
  | v => v

variable {θ η : ℕ → Value} {v : Value} {n : ℕ}

@[simp] theorem vars_var (n : ℕ) : (var n).vars = [n] := rfl

@[simp] theorem vars_pair (car cdr : Value) : (pair car cdr).vars = car.vars ++ cdr.vars := rfl

@[simp] theorem bind_var (n : ℕ) : (var n).bind θ = θ n := rfl

@[simp] theorem bind_pair (car cdr : Value) :
    (pair car cdr).bind θ = .pair (car.bind θ) (cdr.bind θ) := rfl

theorem mem_vars_bind : n ∈ (v.bind θ).vars ↔ ∃ m ∈ v.vars, n ∈ (θ m).vars := by
  induction v with
  | var m => simp
  | pair car cdr ihcar ihcdr => simp [ihcar, ihcdr, or_and_right, exists_or]
  | _ => simp [bind, vars]

@[simp] theorem size_pair (car cdr : Value) : (pair car cdr).size = car.size + cdr.size + 1 := rfl

theorem length_vars_le (v : Value) : v.vars.length ≤ v.size := by
  induction v with
  | pair car cdr ihcar ihcdr =>
    rw [vars_pair, List.length_append, size_pair]
    omega
  | _ => simp [vars, size]

/-- What stands for a variable is a part of what a value with the variable becomes. -/
theorem size_le_of_mem_vars (h : n ∈ v.vars) : (θ n).size ≤ (v.bind θ).size := by
  induction v with
  | var m =>
    obtain rfl := List.mem_singleton.1 h
    rfl
  | pair car cdr ihcar ihcdr =>
    rw [bind_pair, size_pair]
    rcases List.mem_append.1 h with h | h
    · have := ihcar h
      omega
    · have := ihcdr h
      omega
  | _ => cases h

/-- No assignment gives a variable a value that has the variable as a proper part. -/
theorem bind_ne_of_mem_vars (h : n ∈ v.vars) (hne : v ≠ .var n) : θ n ≠ v.bind θ := by
  intro heq
  have hsize := congrArg size heq
  cases v with
  | var m =>
    obtain rfl := List.mem_singleton.1 h
    exact hne rfl
  | pair car cdr =>
    rw [bind_pair, size_pair] at hsize
    rcases List.mem_append.1 h with h | h
    · have : (θ n).size ≤ (car.bind θ).size := size_le_of_mem_vars h
      omega
    · have : (θ n).size ≤ (cdr.bind θ).size := size_le_of_mem_vars h
      omega
  | _ => cases h

end Value

namespace Bindings

/-- `θ` makes every bound variable equal to its value. -/
def Satisfies (θ : ℕ → Value) (s : Bindings) : Prop :=
  ∀ e ∈ s.entries, θ e.1 = e.2.bind θ

/-- The variables of a bound value rank below the variable that is bound to it. -/
def Ranks (s : Bindings) (rank : ℕ → ℕ) : Prop :=
  ∀ e ∈ s.entries, ∀ m ∈ e.2.vars, rank m < rank e.1

/-- No variable is bound twice, and no variable is reached from itself. -/
structure Triangular (s : Bindings) : Prop where
  nodup : (s.entries.map Prod.fst).Nodup
  ranked : ∃ rank, s.Ranks rank

variable {θ : ℕ → Value} {s s' : Bindings} {n : ℕ} {v : Value}

theorem triangular_empty : empty.Triangular :=
  ⟨List.nodup_nil, id, nofun⟩

theorem satisfies_empty (θ : ℕ → Value) : Satisfies θ empty := nofun

theorem satisfies_extend : Satisfies θ (s.extend n v) ↔ θ n = v.bind θ ∧ Satisfies θ s :=
  List.forall_mem_cons

theorem mem_of_get? (h : s.get? n = some v) : (n, v) ∈ s.entries := by
  obtain ⟨l, r, heq, -⟩ := List.lookup_eq_some_iff.1 h
  rw [heq]
  simp

theorem get?_eq_none : s.get? n = none ↔ n ∉ s.entries.map Prod.fst := by
  rw [get?, List.lookup_eq_none_iff, List.mem_map]
  constructor
  · rintro h ⟨e, he, rfl⟩
    simpa using h e he
  · intro h e he
    exact bne_iff_ne.2 fun heq => h ⟨e, he, heq.symm⟩

theorem Triangular.get?_of_mem (h : s.Triangular) (hmem : (n, v) ∈ s.entries) :
    s.get? n = some v := by
  cases hv : s.get? n with
  | none => exact absurd (List.mem_map_of_mem hmem) (get?_eq_none.1 hv)
  | some w =>
    obtain ⟨-, rfl⟩ := Prod.mk.inj (List.inj_on_of_nodup_map h.nodup (mem_of_get? hv) hmem rfl)
    rfl

/-- Bindings in front hide no binding behind them. -/
theorem Triangular.get?_of_suffix (h : s'.Triangular) (hsuf : s.entries <:+ s'.entries)
    (hv : s.get? n = some v) : s'.get? n = some v :=
  h.get?_of_mem (hsuf.subset (mem_of_get? hv))

end Bindings

end Multiequation.Relational
