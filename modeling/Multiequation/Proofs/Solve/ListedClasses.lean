import Multiequation.Proofs.Solution.Listing
import Multiequation.Proofs.Solve.Outcome
import Mathlib

/-!
# The listed classes of a solved system

The classes that are listed for a solved system hold of the values of which the equations hold, and
where every symbol can be applied of no others. Among the terms this means that they have the unifiers
of the equations: leaving out the classes of hidden variables loses nothing.
-/

namespace Multiequation

variable {E : List Equation} {s : Solution} {M : Domain} {v : String → M.Object}

namespace Solution

/-- The listed classes hold wherever the equations do. -/
theorem Solves.holds_classes (h : s.Solves E) (hv : ∀ e ∈ E, e.Holds M v) :
    ∀ c ∈ s.classes, ∀ e ∈ c.equations, e.Holds M v := by
  obtain ⟨w, hw, ha⟩ := h.complete M v hv
  exact h.solved.holds_classes hw ha

/-- Where every symbol can be applied, the equations hold wherever the listed classes do. -/
theorem Solves.holds_of_classes (h : s.Solves E) (hM : M.IsTotal)
    (hv : ∀ c ∈ s.classes, ∀ e ∈ c.equations, e.Holds M v) : ∀ e ∈ E, e.Holds M v := by
  obtain ⟨w, hw, ha⟩ := h.solved.exists_asserts hM hv
  intro e he
  refine (e.holds_congr fun x hx => hw x ?_).1 (h.sound M w ha e he)
  rw [h.names]
  exact Variables.mem_ofEquations.2 ⟨e, he, hx⟩

theorem Solves.mem_names_iff (h : s.Solves E) {x : String} :
    x ∈ s.vars.names ↔ x ∈ E.flatMap Equation.vars := by
  rw [h.names, Variables.ofEquations, List.mem_eraseDups]

/-- The class `id` is listed as `c`: by the names of its written members, and with written members in
place of the classes that it refers to. -/
structure ListsAs (s : Solution) (id : ClassId) (c : SolvedClass) : Prop where
  members : ∃ us : List Var, c.members = us.map s.vars.name ∧
    ∀ u, u ∈ us ↔ s.form.partition.owner? u = some id ∧ s.vars.isHidden u = false
  term : c.term = (s.classAt id).term.map s.render
  referents : ∀ v ∈ Multiterm.varsOfOption (s.classAt id).term, ∃ o u,
    s.form.partition.owner? v = some o ∧ s.form.partition.owner? u = some o ∧
    s.canonicalVar o = .var (s.vars.name u) ∧ s.vars.isHidden u = false

theorem Solved.listsAs (h : s.Solved) {id : ClassId} (hid : id ∈ s.form.order) :
    s.ListsAs id (s.listing id) := by
  have hhidden : ∀ {u : Var}, s.vars.isHidden u = false ↔ u.index < s.vars.names.length := by
    simp [Variables.isHidden]
  refine ⟨⟨_, rfl, fun u => ?_⟩, rfl, fun v hv => ?_⟩
  · rw [h.mem_writtenMembers_iff hid, hhidden]
  · obtain ⟨t, ht, hv⟩ := Multiterm.mem_varsOfOption.1 hv
    obtain ⟨o, u, ho, hu, hlt, hvar⟩ := h.exists_canonical_of_mem ht hv
    exact ⟨o, u, ho, hu, hvar, hhidden.2 hlt⟩

end Solution

/-- The listed classes of a solved system have its unifiers. Every variable of the system is in one
of them, and neither their members nor their terms show any other variable. -/
theorem unifies_classes_iff (h : solve E = .ok s) :
    (∀ θ, Unifies θ (s.classes.flatMap SolvedClass.equations) ↔ Unifies θ E) ∧
    (∀ x ∈ E.flatMap Equation.vars, ∃ c, s.classes.filter (x ∈ ·.members) = [c]) ∧
    (∀ c ∈ s.classes, (∀ x ∈ c.members, x ∈ E.flatMap Equation.vars) ∧
      ∀ t, c.term = some t → ∀ x ∈ t.vars, x ∈ E.flatMap Equation.vars) ∧
    ∀ c ∈ s.classes, ∃ id ∈ s.form.order, s.ListsAs id c := by
  have hs := solves_of_eq_ok h
  refine ⟨fun θ => ?_, fun x hx => ?_, fun c hc => ?_, fun c hc => ?_⟩
  · rw [← holds_terms_iff, ← holds_terms_iff, List.forall_mem_flatMap]
    exact ⟨hs.holds_of_classes Domain.terms_isTotal, hs.holds_classes⟩
  · rw [← hs.mem_names_iff] at hx
    obtain ⟨id, -, hown⟩ := hs.solved.exists_owner?_of_name hx
    exact ⟨_, hs.solved.filter_classes hx hown⟩
  · obtain ⟨id, hid, -, rfl⟩ := Solution.mem_classes.1 hc
    refine ⟨fun x hx => hs.mem_names_iff.1 ((hs.solved.mem_listing_iff hid).1 hx).1, ?_⟩
    intro _ ht x hx
    obtain ⟨t, hterm, rfl⟩ := Option.map_eq_some_iff.1 ht
    exact hs.mem_names_iff.1 (hs.solved.mem_names_of_mem_render hid hterm hx)
  · obtain ⟨id, hid, -, rfl⟩ := Solution.mem_classes.1 hc
    exact ⟨id, hid, hs.solved.listsAs hid⟩

/-- In `f(X) = f(a); Z = g(Y, h(W)); Y = W` the first equation is laid out in a class of a hidden
variable, which is not listed. -/
theorem unifies_classes_of_hidden_class : ∃ E s c₁ c₂ c₃, solve E = .ok s ∧
    s.classes = [c₁, c₂, c₃] ∧ s.form.order.length = 4 ∧
    (∀ θ, Unifies θ (s.classes.flatMap SolvedClass.equations) ↔ Unifies θ E) ∧
    ∀ x ∈ ["X", "Y", "Z", "W"], ∃ c, s.classes.filter (x ∈ ·.members) = [c] := by
  let f : Symbol := ⟨"f", by decide⟩
  let g : Symbol := ⟨"g", by decide⟩
  let a : Term := .app ⟨"a", by decide⟩ []
  let inner : String → Term := fun x => .app ⟨"h", by decide⟩ [.var x]
  let E : List Equation := [⟨.app f [.var "X"], .app f [a]⟩,
    ⟨.var "Z", .app g [.var "Y", inner "W"]⟩, ⟨.var "Y", .var "W"⟩]
  have hrun : (solve E).map (fun s => (s.classes, s.form.order.length)) =
      .ok ([⟨["Z"], some (.app g [.var "Y", inner "Y"])⟩, ⟨["Y", "W"], none⟩, ⟨["X"], some a⟩], 4) := by
    cbv
  obtain ⟨s, hs, hclasses⟩ := Except.map_eq_ok_iff.1 hrun
  obtain ⟨hlist, horder⟩ := Prod.mk.inj hclasses
  obtain ⟨hunifies, hone, -⟩ := unifies_classes_iff hs
  exact ⟨E, s, _, _, _, hs, hlist, horder, hunifies, fun x hx => hone x (by revert x; decide)⟩

end Multiequation
