import Multiequation.Proofs.Relational.GroundAssignment
import Mathlib.Logic.Relation

/-!
# Bindings made by unification, and computations on them

Unification binds no variable twice, and none to a value that leads back to it. Therefore walking,
carrying bindings out, the occurs check and unification itself end on all values, and when all bindings
are carried out only free variables are left.
-/

namespace Multiequation.Relational.Bindings

variable {s : Bindings} {k n : ℕ} {v w : Value}

/-! ### Bindings made by unification -/

/-- The second variable occurs in the value that the first one is bound to. -/
def Refers (s : Bindings) (n m : ℕ) : Prop := ∃ v, (n, v) ∈ s.entries ∧ m ∈ v.vars

/-- No bound variable leads back to itself. -/
theorem Triangular.not_transGen_refers (hs : s.Triangular) (n : ℕ) :
    ¬ Relation.TransGen s.Refers n n := by
  obtain ⟨rank, hrank⟩ := hs.ranked
  have hstep : ∀ {n m}, s.Refers n m → rank m < rank n := by
    rintro n m ⟨v, hv, hm⟩
    exact hrank (n, v) hv m hm
  have hlt : ∀ {n m}, Relation.TransGen s.Refers n m → rank m < rank n := by
    intro n m h
    induction h with
    | single h => exact hstep h
    | tail _ h ih => exact (hstep h).trans ih
  exact fun h => (hlt h).false

/-- When all bindings are carried out only free variables are left. -/
theorem Resolves.get?_of_mem_vars (h : s.Resolves k v w) (hn : n ∈ w.vars) : s.get? n = none := by
  induction h with
  | free hm =>
    obtain rfl := List.mem_singleton.1 hn
    exact hm
  | bound _ _ ih => exact ih hn
  | pair _ _ ihcar ihcdr => exact (List.mem_append.1 hn).elim ihcar ihcdr
  | _ => cases hn

theorem Triangular.walkStar_walkStar (hs : s.Triangular) (v : Value) :
    s.walkStar (s.walkStar v) = s.walkStar v := by
  rw [hs.walkStar_eq_bind (s.walkStar v), hs.bind_walkStar hs.satisfies_walkStar,
    ← hs.walkStar_eq_bind]

/-- In bindings that were made by unification no variable is bound twice and none leads back to itself.
A further unification puts its bindings in front and hides none. Every computation ends, with the one
result that is computed; carrying bindings out leaves no bound variable, so doing it again changes
nothing. -/
theorem computations_end (hs : s.Reached) :
    (s.entries.map Prod.fst).Nodup ∧
    (∀ n, ¬ Relation.TransGen s.Refers n n) ∧
    (∀ u v s', unify u v s = some s' →
      s.entries <:+ s'.entries ∧ ∀ n w, s.get? n = some w → s'.get? n = some w) ∧
    (∀ v w, WalkEnds s v w ↔ s.walk v = w) ∧
    (∀ v w, WalkStarEnds s v w ↔ s.walkStar v = w) ∧
    (∀ n v b, OccursEnds s n v b ↔ s.occurs n v = b) ∧
    (∀ v, (∀ n ∈ (s.walkStar v).vars, s.get? n = none) ∧
      s.walkStar (s.walkStar v) = s.walkStar v) ∧
    ∀ u v r, UnifyEnds u v s r ↔ unify u v s = r := by
  have htri := hs.triangular
  refine ⟨htri.nodup, htri.not_transGen_refers, fun u v s' h => ?_, fun v w => htri.walkEnds_iff,
    fun v w => htri.walkStarEnds_iff, fun n v b => htri.occursEnds_iff, fun v => ⟨fun n hn => ?_, ?_⟩,
    fun u v r => htri.unifyEnds_iff⟩
  · have hunified := htri.unified h
    exact ⟨hunified.suffix, fun n w =>
      (hunified.triangular htri).get?_of_suffix hunified.suffix⟩
  · exact (htri.resolves v).get?_of_mem_vars hn
  · exact htri.walkStar_walkStar v

/-- Each variable is bound to a pair that has the next one twice. -/
def doubling : Bindings :=
  ⟨[(1, .pair (.var 2) (.var 2)), (0, .pair (.var 1) (.var 1))]⟩

/-- What the first variable becomes is larger than the bindings, and the last one occurs in it. -/
theorem computations_end_of_doubling :
    doubling.Reached ∧ ¬ Relation.TransGen doubling.Refers 0 0 ∧
      WalkStarEnds doubling (.var 0)
        (.pair (.pair (.var 2) (.var 2)) (.pair (.var 2) (.var 2))) ∧
      UnifyEnds (.var 2) (.var 0) doubling none := by
  have hs : doubling.Reached :=
    .unify (u := .pair (.var 0) (.var 1))
      (v := .pair (.pair (.var 1) (.var 1)) (.pair (.var 2) (.var 2))) .empty (by decide)
  obtain ⟨-, hcycle, -, -, hwalkStar, -, -, hunify⟩ := computations_end hs
  exact ⟨hs, hcycle 0, (hwalkStar _ _).2 (by decide), (hunify _ _ _).2 (by decide)⟩

end Multiequation.Relational.Bindings
