import Multiequation.Proofs.Pool.Stall
import Multiequation.Proofs.Solution.Generality
import Multiequation.Proofs.System.Layout

/-!
# The outcomes of solving

Solving a system ends in one of three ways, and each says something about every domain. A solution is
true of the values of which the equations are; a clash is reported only if the equations hold in
domains with a clash only; and the occurs check fails only if they hold in domains with a cycle only.
Among the terms there is neither, which makes the engine sound and complete, and its answers most
general.
-/

namespace Multiequation

open Multiequation.Partition

variable {E : List Equation} {s : Solution}

/-- The solution is complete, and it is true of the same values as the equations. -/
structure Solution.Solves (s : Solution) (E : List Equation) : Prop where
  solved : s.Solved
  names : s.vars.names = (Variables.ofEquations E).names
  sound : ∀ (M : Domain) (w : Var → M.Object), Asserts M w s.form.partition →
    ∀ e ∈ E, e.Holds M fun x => w (s.vars.number x)
  complete : ∀ (M : Domain) (v : String → M.Object), (∀ e ∈ E, e.Holds M v) →
    ∃ w : Var → M.Object, (∀ x ∈ s.vars.names, w (s.vars.number x) = v x) ∧
      Asserts M w s.form.partition

/-- A run that leaves no class makes a solution. -/
theorem Draft.Laid.solves {draft : Draft} (h : Laid E draft)
    (hnames : draft.vars.names = (Variables.ofEquations E).names)
    (hstart : Pool.Invariant (fun M w => Asserts M w draft.partition) draft.vars.names.length
      (.ofPartition draft.partition draft.journal) [] [] [] [])
    {order : List ClassId} {pool : Pool}
    (hrun : Pool.Heads (.ofPartition draft.partition draft.journal) order pool)
    (hdone : pool.remaining = 0) : Solution.Solves ⟨⟨pool.partition, order⟩, draft.vars⟩ E := by
  have hinv := hrun.invariant hstart
  have hasserts : ∀ (M : Domain) (w : Var → M.Object),
      Asserts M w draft.partition ↔ Asserts M w pool.partition := fun M w =>
    (hinv.asserts M w).trans (and_iff_left (List.forall_mem_nil _))
  refine ⟨⟨hinv.proper, hinv.isClosed, fun id hid => hinv.mem_closed hdone hid, ?_⟩, hnames,
    fun M w ha => ?_, fun M v hv => ?_⟩
  · dsimp only
    rw [hnames]
    exact Variables.nodup_ofEquations E
  · exact h.sound M w ((hasserts M w).2 ha)
  · obtain ⟨w, hw, ha⟩ := h.complete M v hv
    exact ⟨w, hw, (hasserts M w).1 ha⟩

/-- How solving comes to report `vs`: the system is laid out in classes, discharging them stalls, and
`vs` are the names of the variables that are stuck. -/
structure Stuck (E : List Equation) (vs : List String) (draft : Draft) (pool : Pool) : Prop where
  laid : Draft.Laid E draft
  names : draft.vars.names = (Variables.ofEquations E).names
  stalled : Pool.Stalled (fun M w => Asserts M w draft.partition) draft.vars.names.length
    (.noReadyClasses pool.remaining) pool
  reported : vs = (pool.stuckVars draft.vars).map draft.vars.name

/-- The three ways in which solving ends. -/
theorem solve_ends (E : List Equation) :
    (∃ s, solve E = .ok s ∧ s.Solves E) ∨
    (∃ e, solve E = .error (.failure e) ∧ Draft.RefutesAll E e) ∨
    ∃ vs draft pool, solve E = .error (.occurs vs) ∧ Stuck E vs draft pool := by
  have hlayout := Draft.layOut_ends E
  rw [solve, solveWithJournal]
  cases hl : Draft.layOut E (Draft.start E) with
  | error e draft => exact .inr (.inl ⟨e, rfl, hlayout.of_error hl⟩)
  | ok _ draft =>
    obtain ⟨hlaid, hnames, hcount⟩ := hlayout.of_ok hl
    have hstart := Pool.invariant_ofPartition hlaid.proper hcount draft.journal
    have hrun := hstart.discharge_ends
    dsimp only
    cases hd : Pool.discharge (.ofPartition draft.partition draft.journal) with
    | ok order pool =>
      obtain ⟨hheads, hdone⟩ := hrun.of_ok hd
      exact .inl ⟨_, rfl, hlaid.solves hnames hstart hheads hdone⟩
    | error e pool =>
      obtain ⟨⟨c, rfl⟩, hrefutes⟩ | hstalled := hrun.of_error hd
      · refine .inr (.inl ⟨_, rfl, c, rfl, fun M v hv => ?_⟩)
        obtain ⟨w, -, ha⟩ := hlaid.complete M v hv
        exact hrefutes M w ha
      · obtain rfl := hstalled.failure
        have hstuck := hstalled.stuckVars_ne_nil rfl
        refine .inr (.inr ⟨_, draft, pool, ?_, hlaid, hnames, hstalled, rfl⟩)
        dsimp only [Pool.solveError]
        cases hvars : pool.stuckVars draft.vars with
        | nil => exact absurd hvars hstuck
        | cons u us => rfl

/-- The three outcomes. -/
theorem solve_cases (E : List Equation) :
    (∃ s, solve E = .ok s ∧ s.Solves E) ∨
    (∃ e, solve E = .error (.failure e) ∧ Draft.RefutesAll E e) ∨
    ∃ vs, solve E = .error (.occurs vs) ∧
      ∀ (M : Domain) (v : String → M.Object), (∀ e ∈ E, e.Holds M v) → M.HasCycle := by
  refine (solve_ends E).imp_right (.imp_right ?_)
  rintro ⟨vs, draft, pool, hvs, hstuck⟩
  refine ⟨vs, hvs, fun M v hv => ?_⟩
  obtain ⟨w, -, ha⟩ := hstuck.laid.complete M v hv
  exact hstuck.stalled.hasCycle ha

/-- The variables that are reported are those of a stalled run. -/
theorem stuck_of_eq_error {vs : List String} (h : solve E = .error (.occurs vs)) :
    ∃ draft pool, Stuck E vs draft pool := by
  obtain ⟨s, hs, -⟩ | ⟨e, he, -⟩ | ⟨us, draft, pool, hus, hstuck⟩ := solve_ends E
  · rw [h] at hs
    cases hs
  · rw [h] at he
    cases he
  · rw [h] at hus
    cases hus
    exact ⟨draft, pool, hstuck⟩

/-- The substitution of a solution is a most general unifier. -/
theorem Solution.Solves.mostGeneral (h : s.Solves E) : s.substitution.MostGeneral E := by
  refine h.solved.mostGeneral (fun e he x hx => ?_) (h.sound .terms) (h.complete .terms)
  rw [h.names]
  exact Variables.mem_ofEquations.2 ⟨e, he, hx⟩

theorem solves_of_eq_ok (h : solve E = .ok s) : s.Solves E := by
  obtain ⟨s', hs', hsolves⟩ | ⟨e, he, -⟩ | ⟨vs, hvs, -⟩ := solve_cases E
  · rw [h] at hs'
    obtain rfl := Except.ok.inj hs'
    exact hsolves
  · rw [h] at he
    cases he
  · rw [h] at hvs
    cases hvs

/-- Whatever can be unified is solved. -/
theorem exists_solution {θ : String → Term} (h : Unifies θ E) : ∃ s, solve E = .ok s := by
  rw [← holds_terms_iff] at h
  obtain ⟨s, hs, -⟩ | ⟨e, -, c, -, hclash⟩ | ⟨vs, -, hcycle⟩ := solve_cases E
  · exact ⟨s, hs⟩
  · exact absurd (hclash .terms θ h) Domain.terms_not_hasClash
  · exact absurd (hcycle .terms θ h) Domain.terms_not_hasCycle

/-- A system is solved exactly when it has a unifier, and then by a most general one. -/
theorem solve_sound_and_complete (E : List Equation) :
    ((∃ s, solve E = .ok s) ↔ ∃ θ, Unifies θ E) ∧
      ∀ s, solve E = .ok s → s.substitution.MostGeneral E := by
  refine ⟨⟨?_, ?_⟩, fun s hs => (solves_of_eq_ok hs).mostGeneral⟩
  · rintro ⟨s, hs⟩
    exact ⟨s.substitution.image, (solves_of_eq_ok hs).mostGeneral.unifies⟩
  · rintro ⟨θ, hθ⟩
    exact exists_solution hθ

end Multiequation
