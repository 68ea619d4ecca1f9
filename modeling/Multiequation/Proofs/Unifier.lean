import Multiequation.Substitution
import Mathlib.Tactic

/-!
# Unifiers of equations

A unifier of a system of equations makes both sides of every equation equal. A most general one is
absorbed by every other unifier: replacing its variables first changes nothing that the other unifier
does. Two most general unifiers of one system therefore absorb one another.
-/

namespace Multiequation

namespace Term

/-- Induction over terms with the hypothesis for every argument. -/
@[elab_as_elim]
theorem induction {P : Term → Prop} (var : ∀ x, P (.var x))
    (app : ∀ f args, (∀ t ∈ args, P t) → P (.app f args)) (t : Term) : P t := by
  refine @Term.rec P (fun ts => ∀ t ∈ ts, P t) var app ?_ ?_ t
  · intro t ht
    simp at ht
  · intro s ts hs hts t ht
    rcases List.mem_cons.1 ht with rfl | ht
    · exact hs
    · exact hts t ht

/-- Replacing the variables of a term depends on the variables that occur in it only. -/
theorem bind_congr {θ η : String → Term} (t : Term) (h : ∀ x ∈ t.vars, θ x = η x) :
    t.bind θ = t.bind η := by
  induction t using Term.induction with
  | var x => simpa using h x
  | app f args ih =>
    simp only [bind_app, Term.app.injEq, true_and]
    refine List.map_congr_left fun t ht => ih t ht fun x hx => h x ?_
    simpa using ⟨t, ht, hx⟩

theorem mem_vars_bind {θ : String → Term} {x : String} (t : Term) :
    x ∈ (t.bind θ).vars ↔ ∃ y ∈ t.vars, x ∈ (θ y).vars := by
  induction t using Term.induction with
  | var y => simp
  | app f args ih =>
    simp only [bind_app, vars_app, List.flatMap_map, List.mem_flatMap]
    constructor
    · rintro ⟨t, ht, hx⟩
      obtain ⟨y, hy, hxy⟩ := (ih t ht).1 hx
      exact ⟨y, ⟨t, ht, hy⟩, hxy⟩
    · rintro ⟨y, ⟨t, ht, hy⟩, hxy⟩
      exact ⟨t, ht, (ih t ht).2 ⟨y, hy, hxy⟩⟩

theorem bind_bind (θ η : String → Term) (t : Term) :
    (t.bind θ).bind η = t.bind fun x => (θ x).bind η := by
  induction t using Term.induction with
  | var x => simp
  | app f args ih =>
    simp only [bind_app, List.map_map, Term.app.injEq, true_and]
    exact List.map_congr_left ih

/-- Replacing every variable by itself changes nothing. -/
theorem bind_self (t : Term) : t.bind var = t := by
  induction t using Term.induction with
  | var x => simp
  | app f args ih =>
    rw [bind_app, List.map_congr_left ih, List.map_id']

/-- The number of symbols and variables in a term. -/
def size : Term → ℕ
  | .var _ => 1
  | .app _ args => 1 + go args
where
  go : List Term → ℕ
    | [] => 0
    | t :: ts => size t + go ts

theorem size_lt_of_mem {args : List Term} {t : Term} (f : Symbol) (h : t ∈ args) :
    t.size < (app f args).size := by
  have hle : ∀ ts : List Term, t ∈ ts → t.size ≤ size.go ts := by
    intro ts hts
    induction ts with
    | nil => simp at hts
    | cons s ts ih =>
      rw [size.go]
      rcases List.mem_cons.1 hts with rfl | hts
      · omega
      · have := ih hts
        omega
  have := hle args h
  rw [size]
  omega

end Term

/-- `θ` makes both sides of every equation equal. -/
def Unifies (θ : String → Term) (E : List Equation) : Prop :=
  ∀ e ∈ E, e.left.bind θ = e.right.bind θ

namespace Substitution

theorem apply_eq_bind (σ : Substitution) (t : Term) : σ.apply t = t.bind σ.image := rfl

/-- When all bindings of a name agree, it is bound to what they say. -/
theorem get?_ofList {bindings : List (String × Term)} {x : String} {t : Term}
    (h : ∀ b ∈ bindings, b.1 = x → b.2 = t) :
    (ofList bindings).get? x = if x ∈ bindings.map Prod.fst then some t else none := by
  have hfold : ∀ σ : Substitution, (bindings.foldl (fun σ b => σ.insert b.1 b.2) σ).get? x =
      if x ∈ bindings.map Prod.fst then some t else σ.get? x := by
    induction bindings with
    | nil => exact fun _ => rfl
    | cons b bindings ih =>
      rw [List.forall_mem_cons] at h
      intro σ
      rw [List.foldl_cons, ih h.2, get?_insert]
      by_cases hb : x = b.1
      · simp [hb, h.1 hb.symm]
      · have hmem : x ∈ (b :: bindings).map Prod.fst ↔ x ∈ bindings.map Prod.fst := by simp [hb]
        simp only [hmem, if_neg hb]
  exact hfold empty

/-- A substitution that binds names to what `r` gives, and all names that `r` changes, is `r`. -/
theorem image_ofList {bindings : List (String × Term)} {r : String → Term}
    (hbound : ∀ b ∈ bindings, b.2 = r b.1)
    (hfree : ∀ x, x ∉ bindings.map Prod.fst → r x = .var x) (x : String) :
    (ofList bindings).image x = r x := by
  have hagree : ∀ b ∈ bindings, b.1 = x → b.2 = r x := by
    rintro b hb rfl
    exact hbound b hb
  rw [image, get?_ofList hagree]
  split_ifs with hx
  · rfl
  · exact (hfree x hx).symm

/-- `σ` unifies the equations and is absorbed by every unifier of them. -/
structure MostGeneral (σ : Substitution) (E : List Equation) : Prop where
  unifies : ∀ e ∈ E, σ.apply e.left = σ.apply e.right
  absorbed : ∀ θ, Unifies θ E → ∀ t, (σ.apply t).bind θ = t.bind θ

/-- It is enough to look at single variables. -/
theorem bind_apply_of_image {σ : Substitution} {θ : String → Term}
    (h : ∀ x, (σ.image x).bind θ = θ x) (t : Term) : (σ.apply t).bind θ = t.bind θ := by
  rw [apply_eq_bind, Term.bind_bind]
  exact Term.bind_congr t fun x _ => h x

/-- A most general unifier is absorbed by any other one. -/
theorem MostGeneral.apply_apply {ρ σ : Substitution} {E : List Equation} (hρ : ρ.MostGeneral E)
    (hσ : σ.MostGeneral E) (t : Term) : σ.apply (ρ.apply t) = σ.apply t :=
  hρ.absorbed σ.image hσ.unifies t

end Substitution

end Multiequation
