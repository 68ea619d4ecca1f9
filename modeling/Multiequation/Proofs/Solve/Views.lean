import Multiequation.Proofs.Solution.Listing
import Multiequation.Proofs.Solution.Memoisation
import Multiequation.Proofs.Solve.Outcome
import Mathlib

/-!
# The two views of a solution

The listed classes of a solved system and its substitution say the same: the substitution makes the
members of a class equal to one another and to the listed term. Neither view depends on how it is
computed, on what has been expanded before or on the order in which the variables are visited, and none
of the values for classes and cells that hold nothing is ever used.
-/

namespace Multiequation

variable {E : List Equation} {s : Solution}

namespace Solution.Solved

/-- The substitution makes the equations that a listed class stands for true. -/
theorem holds_classes_substitution (h : s.Solved) :
    ∀ c ∈ s.classes, ∀ e ∈ c.equations, e.Holds .terms s.substitution.image := by
  refine h.holds_classes (fun x hx => ?_) h.asserts_value
  obtain ⟨id, -, hown⟩ := h.exists_owner?_of_name hx
  rw [h.image_eq hx hown, hown]
  rfl

/-- The members of a listed class and its term are replaced by one term. -/
theorem apply_eq_of_mem_classes (h : s.Solved) {c : SolvedClass} (hc : c ∈ s.classes) :
    ∃ d, (∀ x ∈ c.members, s.substitution.apply (.var x) = d) ∧
      ∀ t, c.term = some t → s.substitution.apply t = d := by
  obtain ⟨id, -, hne, rfl⟩ := mem_classes.1 hc
  obtain ⟨d, hmembers, hterm⟩ :=
    (SolvedClass.holds_equations_iff hne).1 (h.holds_classes_substitution _ hc)
  refine ⟨d, fun x hx => ?_, fun t ht => ?_⟩
  · rw [Substitution.apply_var, hmembers x hx]
  · exact (Term.describes_terms_iff t).1 (hterm t ht)

/-- Every class has a member, and every cell of its multiterm at any depth holds a variable of a class
or a multiterm, so that it is rendered without falling back on anything. -/
theorem rendered (h : s.Solved) {id : ClassId} (hid : id ∈ s.form.partition.liveClasses) :
    (∃ v, (s.classAt id).canonical? = some v) ∧ ∀ t, (s.classAt id).term = some t →
      t.Collapsed ∧ (∀ v ∈ t.vars, ∃ o ∈ s.form.partition.liveClasses,
        s.form.partition.owner? v = some o) ∧ ∀ u, s.Renders t u ↔ u = s.render t := by
  have hmem := h.mem_order id hid
  obtain ⟨v, -, hv⟩ := h.proper.exists_owner hid
  obtain ⟨c, -, -, hcanonical, -⟩ := h.exists_canonical hv
  refine ⟨⟨c, hcanonical⟩, fun t ht => ⟨h.closed.collapsed id hmem t ht, fun v hv => ?_, fun u =>
    h.renders_iff hmem ht⟩⟩
  obtain ⟨o, ho⟩ := h.exists_owner?_of_mem ht hv
  exact ⟨o, h.proper.owner_mem_liveClasses ho, ho⟩

end Solution.Solved

/-- The two views of a solution agree. The substitution gives one term to all members of a listed class
and to its listed term. Whatever classes have been expanded before, the expansion of a class makes the
steps that its relation has rules for and ends with the one plain unfolding of the class, and visiting
the variables in any other order yields the same substitution. Every class has a member, every cell of a
multiterm a variable or a multiterm, and every listed term is rendered by the rules alone. -/
theorem solution_views_agree (h : solve E = .ok s) :
    (∀ c ∈ s.classes,
      (∀ x ∈ c.members, ∀ y ∈ c.members,
        s.substitution.apply (.var x) = s.substitution.apply (.var y)) ∧
      ∀ t, c.term = some t → ∀ x ∈ c.members,
        s.substitution.apply (.var x) = s.substitution.apply t) ∧
    (∀ id ∈ s.form.partition.liveClasses, ∀ memo, s.Filled memo → ∃ u memo',
      (s.expand id).run memo = (u, memo') ∧ s.Expands id memo u memo' ∧
        ∀ w, s.Unfolds id w ↔ w = u) ∧
    (∀ vs memo, vs.Perm s.vars.written → s.Filled memo →
      .ofList ((s.bindings vs).run memo).1 = s.substitution) ∧
    (∀ id ∈ s.form.partition.liveClasses, (∃ v, (s.classAt id).canonical? = some v) ∧
      ∀ t, (s.classAt id).term = some t →
        t.Collapsed ∧ (∀ v ∈ t.vars, ∃ o ∈ s.form.partition.liveClasses,
          s.form.partition.owner? v = some o) ∧ ∀ u, s.Renders t u ↔ u = s.render t) ∧
    ∀ v ∈ s.vars.written, ∃ id ∈ s.form.partition.liveClasses,
      s.form.partition.owner? v = some id := by
  have hs := (solves_of_eq_ok h).solved
  refine ⟨fun c hc => ?_, fun id hid memo hmemo => hs.exists_expands (hs.mem_order id hid) hmemo,
    fun vs memo hvs hmemo => hs.ofList_bindings hvs hmemo, fun id hid => hs.rendered hid,
    fun v hv => ?_⟩
  · obtain ⟨d, hmembers, hterm⟩ := hs.apply_eq_of_mem_classes hc
    exact ⟨fun x hx y hy => (hmembers x hx).trans (hmembers y hy).symm,
      fun t ht x hx => (hmembers x hx).trans (hterm t ht).symm⟩
  · obtain ⟨i, hi, rfl⟩ := List.mem_map.1 hv
    obtain ⟨id, hid⟩ := hs.proper.exists_owner?_of_lt (v := ⟨i⟩) (List.mem_range.1 hi)
    exact ⟨id, hs.proper.owner_mem_liveClasses hid, hid⟩

/-- In `X = f(Y, Y); f(Y, V) = f(g(Z), W)` the class of `Y` is shared. The class of `X` is expanded
when that of `Y` has been, and the variables are visited backwards. -/
theorem solution_views_agree_of_sharing : ∃ E s t memo u memo', solve E = .ok s ∧
    s.classes = [⟨["X"], some t⟩, ⟨["V", "W"], none⟩, ⟨["Y"], some (.app ⟨"g", by decide⟩ [.var "Z"])⟩,
      ⟨["Z"], none⟩] ∧
    s.substitution.apply (.var "X") = s.substitution.apply t ∧
    s.substitution.apply (.var "V") = s.substitution.apply (.var "W") ∧
    s.Filled memo ∧ (s.expand ⟨0⟩).run memo = (u, memo') ∧ s.Unfolds ⟨0⟩ u ∧
    .ofList ((s.bindings s.vars.written.reverse).run memo).1 = s.substitution := by
  let f : Symbol := ⟨"f", by decide⟩
  let g : Symbol := ⟨"g", by decide⟩
  let E : List Equation := [⟨.var "X", .app f [.var "Y", .var "Y"]⟩,
    ⟨.app f [.var "Y", .var "V"], .app f [.app g [.var "Z"], .var "W"]⟩]
  have hrun : (solve E).map (fun s => (s.classes, s.form.partition.liveClasses)) =
      .ok ([⟨["X"], some (.app f [.var "Y", .var "Y"])⟩, ⟨["V", "W"], none⟩,
        ⟨["Y"], some (.app g [.var "Z"])⟩, ⟨["Z"], none⟩], [⟨0⟩, ⟨1⟩, ⟨2⟩, ⟨3⟩, ⟨5⟩]) := by cbv
  obtain ⟨s, hs, hclasses⟩ := Except.map_eq_ok_iff.1 hrun
  obtain ⟨hlist, hlive⟩ := Prod.mk.inj hclasses
  obtain ⟨hagree, hexpand, hvisit, -⟩ := solution_views_agree hs
  have hfilled : s.Filled ((s.expand ⟨1⟩).run []).2 := .expand .empty (by rw [hlive]; decide)
  obtain ⟨u, memo', hu, -, hunfolds⟩ := hexpand ⟨0⟩ (by rw [hlive]; decide) _ hfilled
  refine ⟨E, s, _, _, u, memo', hs, hlist, ?_, ?_, hfilled, hu, (hunfolds u).2 rfl,
    hvisit _ _ (List.reverse_perm _) hfilled⟩
  · exact (hagree _ (hlist ▸ List.mem_cons_self)).2 _ rfl "X" List.mem_cons_self
  · exact (hagree ⟨["V", "W"], none⟩ (by rw [hlist]; simp)).1 "V" (by simp) "W" (by simp)

end Multiequation
