import Multiequation.Proofs.Relational.Unification

/-!
# Unification and ground assignments

Bindings that were made by unification are triangular, so the answer of a further unification can be
read off the ground assignments that satisfy them. Two values unify exactly when one of these
assignments makes them equal, and the ground assignments that satisfy the new bindings are then those
that satisfy the old ones and make the two values equal. Any bindings leave room for a ground
assignment: the variables that stay free may stand for anything.
-/

namespace Multiequation.Relational

namespace Value

variable {θ η : ℕ → Value} {v : Value}

theorem bind_congr (v : Value) (h : ∀ n ∈ v.vars, θ n = η n) : v.bind θ = v.bind η := by
  induction v with
  | var n => exact h n (by simp)
  | pair car cdr ihcar ihcdr =>
    rw [vars_pair, List.forall_mem_append] at h
    rw [bind_pair, bind_pair, ihcar h.1, ihcdr h.2]
  | _ => rfl

theorem bind_bind (θ η : ℕ → Value) (v : Value) :
    (v.bind θ).bind η = v.bind fun n => (θ n).bind η := by
  induction v with
  | pair car cdr ihcar ihcdr => simp only [bind_pair, ihcar, ihcdr]
  | _ => rfl

theorem vars_bind_eq_nil (h : ∀ n ∈ v.vars, (θ n).vars = []) : (v.bind θ).vars = [] := by
  refine List.eq_nil_iff_forall_not_mem.2 fun n hn => ?_
  obtain ⟨m, hm, hn⟩ := mem_vars_bind.1 hn
  rw [h m hm] at hn
  cases hn

/-- A value without variables is the same under every assignment. -/
theorem bind_of_vars_eq_nil (h : v.vars = []) : v.bind θ = v := by
  induction v with
  | var n => cases h
  | pair car cdr ihcar ihcdr =>
    obtain ⟨hcar, hcdr⟩ := List.append_eq_nil_iff.1 h
    rw [bind_pair, ihcar hcar, ihcdr hcdr]
  | _ => rfl

end Value

/-- No variable is left in what the variables stand for. -/
def Ground (θ : ℕ → Value) : Prop := ∀ n, (θ n).vars = []

namespace Bindings

variable {s s' : Bindings} {θ η : ℕ → Value} {u v : Value}

theorem Satisfies.bind (h : Satisfies θ s) (η : ℕ → Value) :
    Satisfies (fun n => (θ n).bind η) s := by
  intro e he
  dsimp only
  rw [h e he, Value.bind_bind]

/-- Triangular bindings are satisfied by a ground assignment. -/
theorem Triangular.exists_ground (h : s.Triangular) : ∃ θ, Ground θ ∧ Satisfies θ s :=
  ⟨_, fun _ => Value.vars_bind_eq_nil fun _ _ => rfl, h.satisfies_walkStar.bind fun _ => .nil⟩

/-- The bindings that come from none by successful unifications. -/
inductive Reached : Bindings → Prop
  | empty : Reached empty
  | unify {u v : Value} {s s' : Bindings} : Reached s → unify u v s = some s' → Reached s'

theorem Triangular.unified (hs : s.Triangular) (h : unify u v s = some s') :
    Unified u v s s' := by
  have hdecides := hs.unify_decides u v
  rwa [h] at hdecides

theorem Triangular.refuted (hs : s.Triangular) (h : unify u v s = none) : Refuted u v s := by
  have hdecides := hs.unify_decides u v
  rwa [h] at hdecides

theorem Reached.triangular (h : s.Reached) : s.Triangular := by
  induction h with
  | empty => exact triangular_empty
  | unify _ h ih => exact (ih.unified h).triangular ih

/-- After the two values have been unified they become the same value. -/
theorem Unified.walkStar_eq (h : Unified u v s s') (hs : s.Triangular) :
    s'.walkStar u = s'.walkStar v := by
  have hs' := h.triangular hs
  rw [hs'.walkStar_eq_bind, hs'.walkStar_eq_bind]
  exact ((h.satisfies_iff hs).1 hs'.satisfies_walkStar).2

/-- Values unify exactly when a ground assignment that satisfies the bindings makes them equal. -/
theorem Triangular.isSome_unify_iff (hs : s.Triangular) :
    (unify u v s).isSome ↔ ∃ θ, Ground θ ∧ Satisfies θ s ∧ u.bind θ = v.bind θ := by
  cases h : unify u v s with
  | none =>
    refine iff_of_false (by simp) ?_
    rintro ⟨θ, -, hθ, heq⟩
    exact (hs.refuted h).bind_ne hs hθ heq
  | some s' =>
    have hunified := hs.unified h
    obtain ⟨θ, hground, hθ⟩ := (hunified.triangular hs).exists_ground
    exact iff_of_true rfl ⟨θ, hground, (hunified.satisfies_iff hs).1 hθ⟩

/-- Unification in bindings that were made by unification succeeds exactly when a ground assignment
satisfies the bindings and makes the two values equal. The new bindings make them the same value, and
an assignment, ground or not, satisfies them when it satisfies the old ones and makes the values
equal. -/
theorem unify_correct (hs : s.Reached) (u v : Value) :
    ((unify u v s).isSome ↔ ∃ θ, Ground θ ∧ Satisfies θ s ∧ u.bind θ = v.bind θ) ∧
      ∀ s', unify u v s = some s' → s'.walkStar u = s'.walkStar v ∧
        ∀ θ, Satisfies θ s' ↔ Satisfies θ s ∧ u.bind θ = v.bind θ := by
  have htri := hs.triangular
  refine ⟨htri.isSome_unify_iff, fun s' h => ?_⟩
  have hunified := htri.unified h
  exact ⟨hunified.walkStar_eq htri, fun _ => hunified.satisfies_iff htri⟩

/-- A variable that is bound to a second one does not unify with a pair that holds the second one:
no ground assignment makes them equal. -/
theorem unify_correct_of_cycle :
    (empty.extend 0 (.var 1)).Reached ∧
      ¬ ∃ θ, Ground θ ∧ Satisfies θ (empty.extend 0 (.var 1)) ∧
        (Value.var 1).bind θ = (Value.pair (.var 0) .nil).bind θ := by
  have hs : (empty.extend 0 (.var 1)).Reached :=
    .unify (u := .var 0) (v := .var 1) .empty (by decide)
  refine ⟨hs, fun hθ => ?_⟩
  have hsome := (unify_correct hs (.var 1) (.pair (.var 0) .nil)).1.2 hθ
  exact absurd hsome (by decide)

end Bindings

end Multiequation.Relational
