import Multiequation.Proofs.Pool.Melting
import Multiequation.Proofs.Solve.Interpretation
import Mathlib

/-!
# Which variables are reported

A failed occurs check reports the variables that lie on a cycle of equated occurrences or below one.
They do, because every waiting class is referred to by another one; and no other variable is reported,
because only what lies on a cycle or below one has to be molten when the stalled pool is melted down.
A variable below a cycle is reported although it would not contain itself.
-/

namespace Multiequation

open Multiequation.Partition

variable {E : List Equation} {vs : List String} {x : String}

/-- An occurrence of the variable lies below itself. -/
def ContainsItself (E : List Equation) (x : String) : Prop :=
  ∃ a, a.term? E = some (.var x) ∧ Relation.TransGen (ArgOf E) a a

/-- An occurrence of the variable lies below an occurrence that lies below itself. -/
def BelowCycle (E : List Equation) (x : String) : Prop :=
  ∃ a b, b.term? E = some (.var x) ∧ Relation.TransGen (ArgOf E) a a ∧
    Relation.TransGen (ArgOf E) a b

theorem ContainsItself.belowCycle (h : ContainsItself E x) : BelowCycle E x := by
  obtain ⟨a, ha, hcycle⟩ := h
  exact ⟨a, a, ha, hcycle, hcycle⟩

/-! ### Occurrences of variables -/

/-- A variable of a term is found along a path. -/
theorem Term.mem_vars_iff {t : Term} : x ∈ t.vars ↔ ∃ path, t.at? path = some (.var x) := by
  induction t using Term.induction with
  | var y =>
    rw [vars_var, List.mem_singleton]
    constructor
    · rintro rfl
      exact ⟨[], at?_nil _⟩
    · rintro ⟨path, hpath⟩
      cases path with
      | nil =>
        rw [at?_nil] at hpath
        cases hpath
        rfl
      | cons i path => cases hpath
  | app f args ih =>
    rw [vars_app, List.mem_flatMap]
    constructor
    · rintro ⟨t, ht, hx⟩
      obtain ⟨path, hpath⟩ := (ih t ht).1 hx
      obtain ⟨i, hi⟩ := List.mem_iff_getElem?.1 ht
      exact ⟨i :: path, by rw [at?_app_cons, hi, Option.bind_some, hpath]⟩
    · rintro ⟨path, hpath⟩
      cases path with
      | nil =>
        rw [at?_nil] at hpath
        cases hpath
      | cons i path =>
        rw [at?_app_cons] at hpath
        obtain ⟨t, hi, hpath⟩ := Option.bind_eq_some_iff.1 hpath
        have ht := List.mem_of_getElem? hi
        exact ⟨t, ht, (ih t ht).2 ⟨path, hpath⟩⟩

theorem Equation.mem_vars_iff {e : Equation} : x ∈ e.vars ↔ ∃ right, x ∈ (e.side right).vars := by
  rw [Equation.vars, List.mem_append, Bool.exists_bool]
  rfl

/-- The written variables are those that occur. -/
theorem mem_names_iff_occurs : x ∈ (Variables.ofEquations E).names ↔
    ∃ a : Occurrence, a.term? E = some (.var x) := by
  rw [Variables.mem_ofEquations]
  constructor
  · rintro ⟨e, he, hx⟩
    obtain ⟨i, hi, rfl⟩ := List.getElem_of_mem he
    obtain ⟨right, hx⟩ := Equation.mem_vars_iff.1 hx
    obtain ⟨path, hpath⟩ := Term.mem_vars_iff.1 hx
    exact ⟨⟨i, right, path⟩, by simpa [Occurrence.term?, hi] using hpath⟩
  · rintro ⟨a, ha⟩
    obtain ⟨e, he, hpath⟩ := Option.bind_eq_some_iff.1 ha
    exact ⟨e, List.mem_of_getElem? he,
      Equation.mem_vars_iff.2 ⟨a.right, Term.mem_vars_iff.2 ⟨a.path, hpath⟩⟩⟩

/-! ### The report -/

namespace Stuck

variable {draft : Draft} {pool : Pool}

theorem nodup_names (h : Stuck E vs draft pool) : draft.vars.names.Nodup :=
  h.names ▸ Variables.nodup_ofEquations E

/-- A name is reported when its variable is stuck. -/
theorem mem_iff (h : Stuck E vs draft pool) : x ∈ vs ↔ x ∈ draft.vars.names ∧
    ∃ id ∈ pool.pendingClasses, pool.partition.owner? (draft.vars.number x) = some id := by
  rw [h.reported, List.mem_map]
  constructor
  · rintro ⟨v, hv, rfl⟩
    obtain ⟨hlt, hid⟩ := (h.stalled.mem_stuckVars rfl).1 hv
    rw [draft.vars.number_name h.nodup_names hlt]
    exact ⟨Variables.name_mem hlt, hid⟩
  · rintro ⟨hx, hid⟩
    exact ⟨_, (h.stalled.mem_stuckVars rfl).2 ⟨Variables.number_lt hx, hid⟩,
      Variables.name_number hx⟩

/-- The names are reported in the order of their first occurrences. -/
theorem pairwise (h : Stuck E vs draft pool) : vs.Pairwise fun x y =>
    (E.flatMap Equation.vars).idxOf x < (E.flatMap Equation.vars).idxOf y := by
  rw [h.reported, List.pairwise_map]
  refine (h.stalled.pairwise_stuckVars draft.vars).imp_of_mem fun {u v} hu hv hlt => ?_
  obtain ⟨hu, -⟩ := (h.stalled.mem_stuckVars rfl).1 hu
  obtain ⟨hv, -⟩ := (h.stalled.mem_stuckVars rfl).1 hv
  have hindex : ∀ {w : Var}, w.index < draft.vars.names.length →
      draft.vars.names.idxOf (draft.vars.name w) = w.index := fun hw =>
    congrArg Var.index (draft.vars.number_name h.nodup_names hw)
  have hnames : draft.vars.names = (E.flatMap Equation.vars).eraseDups := h.names
  rw [← Variables.idxOf_eraseDups_lt_iff, ← hnames, hindex hu, hindex hv]
  exact hlt

/-- Among the classes of equated occurrences, a waiting class lies on a cycle or below one. -/
theorem belowCycle (h : Stuck E vs draft pool) (hx : x ∈ vs) : BelowCycle E x := by
  obtain ⟨hname, id, hid, hown⟩ := h.mem_iff.1 hx
  obtain ⟨b, hb⟩ := mem_names_iff_occurs.1 (h.names ▸ hname)
  obtain ⟨w, hw, hasserts⟩ := h.laid.complete _ _ (holds_occurrenceDomain E)
  obtain ⟨d, hcycle, hbelow⟩ := h.stalled.exists_cycle hasserts hid hown
  obtain ⟨a, rfl⟩ := Quotient.exists_rep d
  rw [hw x hname, occurrenceValue_eq hb] at hbelow
  exact ⟨a, b, hb, transGen_argOf_of_below hcycle, transGen_argOf_of_below hbelow⟩

/-- When the pool is melted down, what lies on a cycle or below one is molten. -/
theorem mem_of_belowCycle (h : Stuck E vs draft pool) (hx : BelowCycle E x) : x ∈ vs := by
  obtain ⟨a, b, hb, hcycle, hbelow⟩ := hx
  obtain ⟨w, hasserts, hmolten⟩ := h.stalled.exists_molten
  have hE := h.laid.sound .melted w hasserts
  have hname : x ∈ draft.vars.names := h.names ▸ mem_names_iff_occurs.2 ⟨b, hb⟩
  -- the cycle is one of the molten object, and so the variable is molten
  obtain ⟨d, d', hd, hd', hdd⟩ := exists_below_of_transGen hE hcycle
  obtain rfl := Option.some.inj (hd.symm.trans hd')
  obtain rfl := Domain.eq_molten_of_cycle hdd
  obtain ⟨d, e, hd', he, hde⟩ := exists_below_of_transGen hE hbelow
  obtain rfl := Option.some.inj (hd.symm.trans hd')
  obtain rfl := Option.some.inj ((Occurrence.object?_of_var hE hb).symm.trans he)
  exact h.mem_iff.2 ⟨hname, hmolten _ (Variables.number_lt hname) (Domain.eq_molten_of_below hde)⟩

end Stuck

/-- A failed occurs check reports every variable that lies on a cycle or below one, each once, in the
order of their first occurrences. -/
theorem occurs_exact (h : solve E = .error (.occurs vs)) :
    vs.Nodup ∧
    (vs.Pairwise fun x y =>
      (E.flatMap Equation.vars).idxOf x < (E.flatMap Equation.vars).idxOf y) ∧
    ∀ x, x ∈ vs ↔ BelowCycle E x := by
  obtain ⟨draft, pool, hstuck⟩ := stuck_of_eq_error h
  refine ⟨hstuck.pairwise.imp ?_, hstuck.pairwise, fun x =>
    ⟨hstuck.belowCycle, hstuck.mem_of_belowCycle⟩⟩
  rintro x y hlt rfl
  exact lt_irrefl _ hlt

/-- In `X = f(X, Y); Z = g(X)` the variable `Y` lies below a cycle, and `Z` does not. -/
theorem occurs_exact_of_knot : ∃ E, solve E = .error (.occurs ["X", "Y"]) ∧
    BelowCycle E "Y" ∧ ¬ BelowCycle E "Z" := by
  let E : List Equation := [⟨.var "X", .app ⟨"f", by decide⟩ [.var "X", .var "Y"]⟩,
    ⟨.var "Z", .app ⟨"g", by decide⟩ [.var "X"]⟩]
  have hrun : solve E = .error (.occurs ["X", "Y"]) := by cbv
  obtain ⟨-, -, hiff⟩ := occurs_exact hrun
  exact ⟨E, hrun, (hiff "Y").1 (by simp), fun hz => by simpa using (hiff "Z").2 hz⟩

/-- Two objects, of which the first one has itself and the second one as its arguments. -/
abbrev Domain.knot : Domain where
  Object := Bool
  IsApp d _ ds := d = true ∧ ds = [true, false]
  args_unique := by
    rintro d f ds es ⟨-, rfl⟩ ⟨-, rfl⟩ -
    rfl

/-- In `X = f(X, Y)` the variable `Y` is reported, which does not contain itself. -/
theorem occurs_reports_below_cycle :
    let E : List Equation := [⟨.var "X", .app ⟨"f", by decide⟩ [.var "X", .var "Y"]⟩]
    solve E = .error (.occurs ["X", "Y"]) ∧ ¬ ContainsItself E "Y" := by
  intro E
  refine ⟨by cbv, ?_⟩
  rintro ⟨a, ha, hcycle⟩
  -- the value of the variable has no arguments
  have hE : ∀ e ∈ E, e.Holds .knot fun x => x == "X" := by
    intro e he
    obtain rfl := List.mem_singleton.1 he
    refine Equation.holds_var_left.2 (Term.describes_app.2 ⟨[true, false], ⟨rfl, rfl⟩, ?_⟩)
    simp [Term.describeAll_iff, Term.describes_var]
  obtain ⟨d, e, hd, he, hde⟩ := exists_below_of_transGen hE hcycle
  obtain rfl := Option.some.inj ((Occurrence.object?_of_var hE ha).symm.trans hd)
  obtain ⟨e, ⟨f, ds, htrue, -⟩, -⟩ := Relation.TransGen.head'_iff.1 hde
  simp at htrue

end Multiequation
