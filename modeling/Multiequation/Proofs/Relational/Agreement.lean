import Multiequation.Proofs.Relational.Codes
import Multiequation.Proofs.Relational.Search
import Multiequation.Proofs.Solve.Outcome

/-!
# Two unifiers that agree

What the bindings of a system make of its variables is decoded to a most general unifier, and no
bindings are found only when there is no unifier. The engine on multiterms has the same specification.
So both succeed on the same systems, and each of their answers is absorbed by the other one.
-/

namespace Multiequation.Relational

open Bindings Encoding

variable {E : List Equation} {enc : Encoding} {s : Bindings} {θ : String → Term} {x : String}

namespace Encoding

/-- The encoding after all variables of the equations have been met. -/
def ofEquations (E : List Equation) : Encoding := empty.meetAll (E.flatMap Equation.vars)

theorem nodup_ofEquations (E : List Equation) : (ofEquations E).names.Nodup :=
  nodup_meetAll List.nodup_nil _

theorem mem_ofEquations : x ∈ (ofEquations E).names ↔ ∃ e ∈ E, x ∈ e.vars := by
  simp [ofEquations, mem_meetAll, empty]

/-- The variables of both sides have been met. -/
theorem vars_mem_ofEquations {e : Equation} (he : e ∈ E) :
    (∀ x ∈ e.left.vars, x ∈ (ofEquations E).names) ∧
      ∀ x ∈ e.right.vars, x ∈ (ofEquations E).names :=
  ⟨fun _ hx => mem_ofEquations.2 ⟨e, he, List.mem_append_left _ hx⟩,
    fun _ hx => mem_ofEquations.2 ⟨e, he, List.mem_append_right _ hx⟩⟩

theorem codes_sides {p : Value × Value} (hp : p ∈ E.map (ofEquations E).sides) :
    (ofEquations E).Codes .term p.1 ∧ (ofEquations E).Codes .term p.2 := by
  obtain ⟨e, he, rfl⟩ := List.mem_map.1 hp
  obtain ⟨hleft, hright⟩ := vars_mem_ofEquations he
  exact ⟨codes_toValue hleft, codes_toValue hright⟩

end Encoding

theorem unifier?_eq (E : List Equation) :
    unifier? E =
      ((E.map (ofEquations E).sides).foldlM (fun s p => unify p.1 p.2 s) .empty).bind fun s =>
        (resolvedFrom (ofEquations E) s 0 (ofEquations E).names).map .ofList := by
  rw [unifier?, mapM_encodeEquation, ← ofEquations]
  dsimp only
  rw [unifyAll_eq]
  refine Option.bind_congr fun s _ => ?_
  cases resolvedFrom (ofEquations E) s 0 (ofEquations E).names <;> rfl

/-! ### Reading the bindings back -/

/-- `r` maps the variables that have been met to the terms that the bindings make of them, and every
other variable to itself. -/
structure Represents (enc : Encoding) (s : Bindings) (r : String → Term) : Prop where
  vars : ∀ x ∈ enc.names, ∀ y ∈ (r x).vars, y ∈ enc.names
  walkStar : ∀ x ∈ enc.names, s.walkStar (.var (enc.index x)) = (r x).toValue enc.index
  free : ∀ x, x ∉ enc.names → r x = .var x

theorem exists_represents (hs : s.Triangular) (hcoded : s.Coded enc) :
    ∃ r, Represents enc s r := by
  have hterm : ∀ x, ∃ t : Term, (x ∈ enc.names → (∀ y ∈ t.vars, y ∈ enc.names) ∧
      s.walkStar (.var (enc.index x)) = t.toValue enc.index) ∧ (x ∉ enc.names → t = .var x) := by
    intro x
    by_cases hx : x ∈ enc.names
    · obtain ⟨t, ht, heq⟩ := hs.codes_walkStar hcoded hx
      exact ⟨t, fun _ => ⟨ht, heq⟩, fun hnot => absurd hx hnot⟩
    · exact ⟨.var x, fun hmem => absurd hmem hx, fun _ => rfl⟩
  choose r hr using hterm
  exact ⟨r, fun x hx => ((hr x).1 hx).1, fun x hx => ((hr x).1 hx).2, fun x hx => (hr x).2 hx⟩

theorem resolvedFrom_cons (n : ℕ) (x : String) (xs : List String) :
    resolvedFrom enc s n (x :: xs) =
      if s.walkStar (.var n) = .var n then resolvedFrom enc s (n + 1) xs
      else (enc.decode? (s.walkStar (.var n))).bind fun t =>
        (resolvedFrom enc s (n + 1) xs).bind fun rest => some ((x, t) :: rest) := by
  rw [resolvedFrom]
  cases s.walkStar (.var n) with
  | var m =>
    simp only [Value.var.injEq]
    rfl
  | _ => rfl

namespace Represents

variable {r : String → Term}

/-- The variables that stand for themselves are left out. -/
theorem resolvedFrom_eq (h : Represents enc s r) (hnodup : enc.names.Nodup) (xs ys : List String)
    (hnames : enc.names = xs ++ ys) : resolvedFrom enc s xs.length ys =
      some (ys.filterMap fun x => if r x = .var x then none else some (x, r x)) := by
  induction ys generalizing xs with
  | nil => rfl
  | cons y ys ih =>
    have hy : y ∈ enc.names := by simp [hnames]
    have hindex : enc.index y = xs.length := by
      have hnot : y ∉ xs := by
        rw [hnames, List.nodup_append] at hnodup
        exact fun hmem => hnodup.2.2 y hmem y List.mem_cons_self rfl
      rw [index, hnames, List.idxOf_append_of_notMem hnot]
      simp
    have hwalk := h.walkStar y hy
    have hrest := ih (xs ++ [y]) (by simp [hnames])
    rw [List.length_append, List.length_singleton] at hrest
    rw [resolvedFrom_cons, ← hindex, hwalk, decode?_toValue (h.vars y hy), hindex, hrest]
    by_cases hself : r y = .var y
    · simp [hself, hindex]
    · have hne : (r y).toValue enc.index ≠ .var xs.length := by
        intro heq
        refine hself (Term.toValue_inj (injOn_index enc) (h.vars y hy) (by simpa using hy) ?_)
        rw [heq, Term.toValue_var, hindex]
      simp [hself, hne]

theorem image_eq (h : Represents enc s r) (x : String) :
    (Substitution.ofList (enc.names.filterMap fun x =>
      if r x = .var x then none else some (x, r x))).image x = r x := by
  refine Substitution.image_ofList (fun b hb => ?_) (fun y hy => ?_) x
  · obtain ⟨y, -, hby⟩ := List.mem_filterMap.1 hb
    split_ifs at hby
    obtain rfl := Option.some.inj hby
    rfl
  · by_contra hne
    have hmem : y ∈ enc.names := by
      by_contra hnot
      exact hne (h.free y hnot)
    refine hy (List.mem_map.2 ⟨(y, r y), List.mem_filterMap.2 ⟨y, hmem, if_neg hne⟩, rfl⟩)

/-- The variables that stand for themselves are not bound. -/
theorem unifier?_eq_ofList (h : Represents (ofEquations E) s r)
    (hs : (E.map (ofEquations E).sides).foldlM (fun s p => unify p.1 p.2 s) .empty = some s) :
    unifier? E = some (.ofList ((ofEquations E).names.filterMap fun x =>
      if r x = .var x then none else some (x, r x))) := by
  rw [unifier?_eq, hs, Option.bind_some]
  have hread := h.resolvedFrom_eq (nodup_ofEquations E) [] _ rfl
  rw [List.length_nil] at hread
  rw [hread]
  rfl

theorem unifier?_eq_some (h : Represents (ofEquations E) s r)
    (hs : (E.map (ofEquations E).sides).foldlM (fun s p => unify p.1 p.2 s) .empty = some s) :
    ∃ ρ : Substitution, unifier? E = some ρ ∧ ∀ x, ρ.image x = r x :=
  ⟨_, h.unifier?_eq_ofList hs, h.image_eq⟩

end Represents

/-! ### Assignments of encoded terms -/

/-- The assignment of the values of the terms that `θ` gives to the names. -/
def valuation (enc : Encoding) (θ : String → Term) (ν : String → ℕ) (n : ℕ) : Value :=
  match enc.names[n]? with
  | some x => (θ x).toValue ν
  | none => .nil

theorem valuation_index {ν : String → ℕ} (hx : x ∈ enc.names) :
    valuation enc θ ν (enc.index x) = (θ x).toValue ν := by
  rw [valuation, index, List.getElem?_eq_getElem (List.idxOf_lt_length_iff.2 hx), List.getElem_idxOf]

/-- A unifier gives an assignment under which the encoded sides are equal. -/
theorem bind_sides_of_unifies (hθ : Unifies θ E) (ν : String → ℕ) :
    ∀ p ∈ E.map (ofEquations E).sides,
      p.1.bind (valuation (ofEquations E) θ ν) = p.2.bind (valuation (ofEquations E) θ ν) := by
  intro p hp
  obtain ⟨e, he, rfl⟩ := List.mem_map.1 hp
  obtain ⟨hleft, hright⟩ := vars_mem_ofEquations he
  rw [sides, e.left.bind_toValue fun x hx => valuation_index (hleft x hx),
    e.right.bind_toValue fun x hx => valuation_index (hright x hx), hθ e he]

/-- What the bindings make of the variables unifies the equations. -/
theorem Represents.unifies {r : String → Term} (h : Represents (ofEquations E) s r)
    (hs : s.Triangular)
    (hsides : ∀ p ∈ E.map (ofEquations E).sides, s.walkStar p.1 = s.walkStar p.2) :
    Unifies r E := by
  intro e he
  have hside : ∀ t : Term, (∀ x ∈ t.vars, x ∈ (ofEquations E).names) →
      (t.bind r).toValue (ofEquations E).index = s.walkStar (t.toValue (ofEquations E).index) ∧
      ∀ y ∈ (t.bind r).vars, y ∈ (ofEquations E).names := by
    intro t ht
    rw [hs.walkStar_eq_bind, t.bind_toValue fun x hx => h.walkStar x (ht x hx)]
    refine ⟨rfl, fun y hy => ?_⟩
    obtain ⟨x, hx, hy⟩ := (t.mem_vars_bind).1 hy
    exact h.vars x (ht x hx) y hy
  obtain ⟨hleft, hright⟩ := vars_mem_ofEquations he
  refine Term.toValue_inj (injOn_index _) (hside _ hleft).2 (hside _ hright).2 ?_
  rw [(hside _ hleft).1, (hside _ hright).1]
  exact hsides _ (List.mem_map_of_mem he)

/-- Whatever satisfies the bindings absorbs what the bindings make of the variables. -/
theorem Represents.absorbed {r : String → Term} (h : Represents enc s r) (hs : s.Triangular)
    (hθ : ∀ ν, Satisfies (valuation enc θ ν) s) (x : String) : (r x).bind θ = θ x := by
  by_cases hx : x ∈ enc.names
  · -- numbers that tell apart all variables of the terms that `θ` gives
    let images : Encoding := ⟨enc.names.flatMap fun y => (θ y).vars⟩
    have hmem : ∀ y ∈ enc.names, ∀ z ∈ (θ y).vars, z ∈ images.names := fun y hy z hz =>
      List.mem_flatMap.2 ⟨y, hy, hz⟩
    refine Term.toValue_inj (injOn_index images) (fun z hz => ?_) (hmem x hx) ?_
    · obtain ⟨y, hy, hz⟩ := ((r x).mem_vars_bind).1 hz
      exact hmem y (h.vars x hx y hy) z hz
    · rw [← valuation_index hx, ← (r x).bind_toValue fun y hy => valuation_index (h.vars x hx y hy),
        ← h.walkStar x hx, hs.bind_walkStar (hθ _), Value.bind_var]
  · rw [h.free x hx, Term.bind_var]

/-- Unification by bindings finds a most general unifier if there is a unifier. -/
theorem unifier?_cases (E : List Equation) :
    (∃ ρ, unifier? E = some ρ ∧ ρ.MostGeneral E) ∨
      unifier? E = none ∧ ∀ θ, ¬ Unifies θ E := by
  obtain ⟨s, hs, hunified⟩ | ⟨hnone, hne⟩ :=
    triangular_empty.foldlM_unify (E.map (ofEquations E).sides)
  · have htri := hunified.triangular triangular_empty
    have hcoded : s.Coded (ofEquations E) := hunified.coded nofun fun p => codes_sides
    have hiff : ∀ {Θ}, Satisfies Θ s ↔
        ∀ p ∈ E.map (ofEquations E).sides, p.1.bind Θ = p.2.bind Θ := fun {Θ} =>
      (hunified.satisfies_iff triangular_empty).trans (and_iff_right (satisfies_empty Θ))
    obtain ⟨r, hr⟩ := exists_represents htri hcoded
    obtain ⟨ρ, hρ, himage⟩ := hr.unifier?_eq_some hs
    obtain rfl : ρ.image = r := funext himage
    refine .inl ⟨ρ, hρ, hr.unifies htri fun p hp => ?_, fun θ hθ t => ?_⟩
    · rw [htri.walkStar_eq_bind, htri.walkStar_eq_bind]
      exact hiff.1 htri.satisfies_walkStar p hp
    · exact Substitution.bind_apply_of_image (hr.absorbed htri fun ν =>
        hiff.2 (bind_sides_of_unifies hθ ν)) t
  · refine .inr ⟨?_, fun θ hθ => ?_⟩
    · rw [unifier?_eq, hnone]
      rfl
    · exact hne _ (satisfies_empty _) (bind_sides_of_unifies hθ fun _ => 0)

/-- Both unifiers succeed on the same systems, and applying one answer after the other one is the
same as applying the last one alone. -/
theorem unifier?_agrees_with_solve (E : List Equation) :
    ((unifier? E).isSome ↔ ∃ s, solve E = .ok s) ∧
      ∀ ρ s, unifier? E = some ρ → solve E = .ok s → ∀ t,
        s.substitution.apply (ρ.apply t) = s.substitution.apply t ∧
          ρ.apply (s.substitution.apply t) = ρ.apply t := by
  obtain ⟨ρ, hρ, hgeneral⟩ | ⟨hnone, hne⟩ := unifier?_cases E
  · refine ⟨iff_of_true (by simp [hρ]) (exists_solution (θ := ρ.image) hgeneral.unifies), ?_⟩
    intro ρ' s hρ' hs t
    obtain rfl := Option.some.inj (hρ.symm.trans hρ')
    have hsolved := (solves_of_eq_ok hs).mostGeneral
    exact ⟨hgeneral.apply_apply hsolved t, hsolved.apply_apply hgeneral t⟩
  · rw [hnone]
    refine ⟨iff_of_false (by simp) ?_, nofun⟩
    rintro ⟨s, hs⟩
    exact hne s.substitution.image (solves_of_eq_ok hs).mostGeneral.unifies

end Multiequation.Relational
