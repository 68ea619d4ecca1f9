import Multiequation.Proofs.Solution.Unfolding
import Multiequation.Proofs.Solve.ListedClasses

/-!
# Systems that say the same

Two systems over the same variables that hold of the same values in every domain are both solved or
neither is, and their listed classes match: the order of the equations, and which side of one is left,
decide only how the answer is written.
-/

namespace Multiequation

variable {E E' : List Equation} {s s' : Solution}

/-- The equation with its sides exchanged. -/
def Equation.swap (e : Equation) : Equation :=
  ⟨e.right, e.left⟩

theorem Equation.holds_swap {M : Domain} {v : String → M.Object} (e : Equation) :
    e.swap.Holds M v ↔ e.Holds M v :=
  exists_congr fun _ => and_comm

theorem Equation.mem_vars_swap {x : String} (e : Equation) : x ∈ e.swap.vars ↔ x ∈ e.vars := by
  simp only [vars, swap, List.mem_append, or_comm]

/-- The equations in another order, and some of them with their sides exchanged. -/
def Restates (E E' : List Equation) : Prop :=
  ∃ F, E.Perm F ∧ List.Forall₂ (fun e e' => e' = e ∨ e' = e.swap) F E'

/-- What does not depend on the sides of an equation does not depend on how a system is stated. -/
theorem Restates.forall_iff (h : Restates E E') {P : Equation → Prop}
    (hP : ∀ e : Equation, P e.swap ↔ P e) : (∀ e ∈ E, P e) ↔ ∀ e ∈ E', P e := by
  obtain ⟨F, hperm, hsides⟩ := h
  have hF : (∀ e ∈ E, P e) ↔ ∀ e ∈ F, P e := forall_congr' fun e => by rw [hperm.mem_iff]
  rw [hF]
  clear hF hperm
  induction hsides with
  | nil => exact Iff.rfl
  | cons he _ ih =>
    rw [List.forall_mem_cons, List.forall_mem_cons]
    refine and_congr ?_ ih
    obtain rfl | rfl := he
    · exact Iff.rfl
    · exact (hP _).symm

/-- The systems have the same variables and hold of the same values. -/
structure Equivalent (E E' : List Equation) : Prop where
  mem_vars : ∀ x, x ∈ E.flatMap Equation.vars ↔ x ∈ E'.flatMap Equation.vars
  holds : ∀ (M : Domain) (v : String → M.Object),
    (∀ e ∈ E, e.Holds M v) ↔ ∀ e ∈ E', e.Holds M v

theorem Equivalent.symm (h : Equivalent E E') : Equivalent E' E :=
  ⟨fun x => (h.mem_vars x).symm, fun M v => (h.holds M v).symm⟩

theorem Restates.equivalent (h : Restates E E') : Equivalent E E' := by
  refine ⟨fun x => ?_, fun M v => h.forall_iff fun e => e.holds_swap⟩
  have hnone := h.forall_iff (P := fun e => x ∉ e.vars) fun e => not_congr e.mem_vars_swap
  rw [List.mem_flatMap, List.mem_flatMap, ← not_iff_not]
  simpa using hnone

/-- A system is solved if one that says the same is. -/
theorem Equivalent.exists_solution (h : Equivalent E E') (hs : solve E = .ok s) :
    ∃ s', solve E' = .ok s' := by
  have hunifies := holds_terms_iff.2 (solves_of_eq_ok hs).mostGeneral.unifies
  exact Multiequation.exists_solution (holds_terms_iff.1 ((h.holds _ _).1 hunifies))

/-- The classes listed for a system entail those listed for one that says the same. -/
theorem Equivalent.entails (h : Equivalent E E') (hs : s.Solves E) (hs' : s'.Solves E') :
    SolvedClass.Entails s.classes s'.classes where
  mem c hc x hx := by
    obtain ⟨id, hid, -, rfl⟩ := Solution.mem_classes.1 hc
    have hx' := hs'.mem_names_iff.1 ((hs'.solved.mem_listing_iff hid).1 hx).1
    exact hs.solved.exists_class (hs.mem_names_iff.2 ((h.mem_vars x).2 hx'))
  holds := by
    -- the first list holds in its own domain, so there both systems do, and the second list
    have hown := hs.solved.separate.holds_domain
    have hE := hs.holds_of_classes (SolvedClass.domain_isTotal _) hown
    exact hs'.holds_classes ((h.holds _ _).1 hE)

/-- It does not matter in which order equations are written, and which of their sides is left. -/
theorem solve_restated (h : Restates E E') :
    ((∃ s, solve E = .ok s) ↔ ∃ s', solve E' = .ok s') ∧
    ∀ s s', solve E = .ok s → solve E' = .ok s' →
      (∀ c ∈ s.classes, ∃ c' ∈ s'.classes, SolvedClass.Matches s.classes c c') ∧
      ∀ c' ∈ s'.classes, ∃ c ∈ s.classes, SolvedClass.Matches s.classes c c' := by
  have heq := h.equivalent
  refine ⟨⟨fun ⟨s, hs⟩ => heq.exists_solution hs, fun ⟨s', hs'⟩ => heq.symm.exists_solution hs'⟩,
    fun s s' hs hs' => ?_⟩
  have hsolves := solves_of_eq_ok hs
  have hsolves' := solves_of_eq_ok hs'
  have hentails := heq.entails hsolves hsolves'
  have hentails' := heq.symm.entails hsolves' hsolves
  have hsep := hsolves.solved.separate
  have hsep' := hsolves'.solved.separate
  exact ⟨fun c hc => hentails.exists_matches hentails' hsep hsep' hc,
    fun c' hc' => hentails.exists_matched hentails' hsep hsep' hc'⟩

/-- `X = a; Z = g(Y, f(W)); Y = W` is written backwards and with the sides exchanged: now `W` comes
before `Y`, and the class of `Z` is listed first. -/
theorem solve_restated_backwards : ∃ E E' s s', Restates E E' ∧ solve E = .ok s ∧
    solve E' = .ok s' ∧ s.classes.map SolvedClass.members = [["X"], ["Z"], ["Y", "W"]] ∧
    s'.classes.map SolvedClass.members = [["Z"], ["X"], ["W", "Y"]] ∧
    ∀ c ∈ s.classes, ∃ c' ∈ s'.classes, SolvedClass.Matches s.classes c c' := by
  let e₁ : Equation := ⟨.var "X", .app ⟨"a", by decide⟩ []⟩
  let e₂ : Equation := ⟨.var "Z", .app ⟨"g", by decide⟩ [.var "Y", .app ⟨"f", by decide⟩ [.var "W"]]⟩
  let e₃ : Equation := ⟨.var "Y", .var "W"⟩
  have hrestates : Restates [e₁, e₂, e₃] [e₃.swap, e₂.swap, e₁.swap] :=
    ⟨[e₃, e₂, e₁], (List.reverse_perm _).symm,
      .cons (.inr rfl) (.cons (.inr rfl) (.cons (.inr rfl) .nil))⟩
  have hrun : (solve [e₁, e₂, e₃]).map (·.classes.map SolvedClass.members) =
      .ok [["X"], ["Z"], ["Y", "W"]] := by cbv
  have hrun' : (solve [e₃.swap, e₂.swap, e₁.swap]).map (·.classes.map SolvedClass.members) =
      .ok [["Z"], ["X"], ["W", "Y"]] := by cbv
  obtain ⟨s, hs, hclasses⟩ := Except.map_eq_ok_iff.1 hrun
  obtain ⟨s', hs', hclasses'⟩ := Except.map_eq_ok_iff.1 hrun'
  exact ⟨_, _, s, s', hrestates, hs, hs', hclasses, hclasses',
    ((solve_restated hrestates).2 s s' hs hs').1⟩

end Multiequation
