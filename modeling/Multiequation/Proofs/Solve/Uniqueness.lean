import Multiequation.Proofs.Solution.Canonical
import Multiequation.Proofs.Solve.Outcome
import Mathlib

/-!
# The substitution of a solved system

Among the most general unifiers of a system, the one that is computed is determined by the unifiers and
by the order in which the variables occur first: it is canonical for this order.
-/

namespace Multiequation

variable {E E' : List Equation} {s s' : Solution}

namespace Solution.Solves

/-- What is bound, and what it is bound to, are variables of the system. -/
theorem canonical (h : s.Solves E) :
    s.substitution.Canonical (E.flatMap Equation.vars).eraseDups := by
  have hcanonical := h.solved.canonical
  rwa [h.names] at hcanonical

/-- Systems with the same unifiers and the same order of variables have one substitution. -/
theorem substitution_eq (h : s.Solves E) (h' : s'.Solves E')
    (hunifies : ∀ θ, Unifies θ E' ↔ Unifies θ E)
    (horder : (E'.flatMap Equation.vars).eraseDups = (E.flatMap Equation.vars).eraseDups) :
    s'.substitution = s.substitution := by
  have hnames : s'.vars.names = s.vars.names := (h'.names.trans horder).trans h.names.symm
  refine h.solved.substitution_congr h'.solved hnames ?_
  exact (hnames ▸ h'.solved.canonical).get?_eq h.solved.canonical
    (h'.mostGeneral.congr fun θ => (hunifies θ).symm) h.mostGeneral

end Solution.Solves

/-- The substitution of a solved system is idempotent. It binds variables of the system to terms over
those that are not bound, and it renames the variables of a class without a term to the one that occurs
first. Any system with the same unifiers and the same order of variables has the same
substitution. -/
theorem substitution_canonical (h : solve E = .ok s) :
    (∀ t, s.substitution.apply (s.substitution.apply t) = s.substitution.apply t) ∧
    (∀ x t, s.substitution.get? x = some t → x ∈ E.flatMap Equation.vars ∧
      ∀ y ∈ t.vars, y ∈ E.flatMap Equation.vars ∧ s.substitution.get? y = none) ∧
    (∀ c ∈ s.classes, c.term = none → ∃ x rest, c.members = x :: rest ∧
      s.substitution.get? x = none ∧ ∀ y ∈ rest, s.substitution.get? y = some (.var x) ∧
        (E.flatMap Equation.vars).idxOf x < (E.flatMap Equation.vars).idxOf y) ∧
    ∀ E' s', solve E' = .ok s' → (∀ θ, Unifies θ E' ↔ Unifies θ E) →
      (E'.flatMap Equation.vars).eraseDups = (E.flatMap Equation.vars).eraseDups →
      s'.substitution = s.substitution := by
  have hs := solves_of_eq_ok h
  refine ⟨hs.mostGeneral.apply_apply hs.mostGeneral, fun x t hx => ?_, fun c hc ht => ?_,
    fun E' s' h' => hs.substitution_eq (solves_of_eq_ok h')⟩
  · refine ⟨List.mem_eraseDups.1 (hs.canonical.key_mem hx), fun y hy => ?_⟩
    obtain ⟨hmem, hfree⟩ := hs.canonical.vars hx y hy
    exact ⟨List.mem_eraseDups.1 hmem, hfree⟩
  · obtain ⟨x, rest, hmembers, hfree, hrest⟩ := hs.solved.unconstrained hc ht
    refine ⟨x, rest, hmembers, hfree, fun y hy => ⟨(hrest y hy).2, ?_⟩⟩
    rw [← Variables.idxOf_eraseDups_lt_iff]
    have hlt := (hrest y hy).1
    rwa [hs.names] at hlt

/-- `f(X, a) = f(Y, V); Z = g(Y, W); W = U` renames `Y` to `X` and `U` to `W`, and so it does when every
equation is stated again. -/
theorem substitution_canonical_of_repetition : ∃ E s s', solve E = .ok s ∧
    solve (E ++ E) = .ok s' ∧ s.substitution.get? "Y" = some (.var "X") ∧
    s.substitution.get? "U" = some (.var "W") ∧
    (∀ t, s.substitution.apply (s.substitution.apply t) = s.substitution.apply t) ∧
    s'.substitution = s.substitution := by
  let f : Symbol := ⟨"f", by decide⟩
  let a : Term := .app ⟨"a", by decide⟩ []
  let E : List Equation := [⟨.app f [.var "X", a], .app f [.var "Y", .var "V"]⟩,
    ⟨.var "Z", .app ⟨"g", by decide⟩ [.var "Y", .var "W"]⟩, ⟨.var "W", .var "U"⟩]
  have hrun : (solve E).map (fun s => (s.substitution.get? "Y", s.substitution.get? "U")) =
      .ok (some (.var "X"), some (.var "W")) := by cbv
  have hunifies : ∀ θ, Unifies θ (E ++ E) ↔ Unifies θ E := fun θ => by
    simp only [Unifies, List.forall_mem_append, and_self]
  obtain ⟨s, hs, hget⟩ := Except.map_eq_ok_iff.1 hrun
  obtain ⟨s', hs'⟩ := exists_solution
    ((hunifies _).2 (solves_of_eq_ok hs).mostGeneral.unifies)
  obtain ⟨hidempotent, -, -, hunique⟩ := substitution_canonical hs
  exact ⟨E, s, s', hs, hs', (Prod.mk.inj hget).1, (Prod.mk.inj hget).2, hidempotent,
    hunique _ s' hs' hunifies (by cbv)⟩

end Multiequation
