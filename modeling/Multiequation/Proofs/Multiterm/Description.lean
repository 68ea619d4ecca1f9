import Multiequation.Proofs.Domain
import Multiequation.Proofs.Multiterm.Shape

/-!
# What multiterms say about objects

When every variable stands for an object of a domain, a multiterm describes the objects that are
applications of its functor to objects described by its cells; a cell describes the one object that
all its variables stand for, if its multiterm describes it too. Merging joins two descriptions, and
peeling splits one into that of the kept part and the claims of the cells that moved out. A failed
merge of two descriptions of one object shows a clash in the domain.
-/

namespace Multiequation

mutual

/-- The object is as the multiterm says. -/
def Multiterm.Describes (M : Domain) (w : Var → M.Object) : Multiterm → M.Object → Prop
  | ⟨f, args⟩, d => ∃ ds, M.IsApp d f ds ∧ Cell.DescribeAll M w args ds
termination_by structural t => t

/-- The object is as the multiterm says, if there is one. -/
def Multiterm.OptionDescribes (M : Domain) (w : Var → M.Object) :
    Option Multiterm → M.Object → Prop
  | none, _ => True
  | some t, d => t.Describes M w d
termination_by structural t => t

/-- The objects are, one by one, as the cells say. -/
def Cell.DescribeAll (M : Domain) (w : Var → M.Object) : List Cell → List M.Object → Prop
  | [], [] => True
  | ⟨vs, t⟩ :: cells, d :: ds =>
    ((∀ v ∈ vs.toList, w v = d) ∧ Multiterm.OptionDescribes M w t d) ∧ Cell.DescribeAll M w cells ds
  | _, _ => False
termination_by structural cells => cells

end

/-- The object is as the cell says. -/
def Cell.Describes (M : Domain) (w : Var → M.Object) (c : Cell) (d : M.Object) : Prop :=
  (∀ v ∈ c.vars.toList, w v = d) ∧ Multiterm.OptionDescribes M w c.term d

/-- The cell describes some object. -/
def Cell.Holds (M : Domain) (w : Var → M.Object) (c : Cell) : Prop :=
  ∃ d, c.Describes M w d

section

variable {M : Domain} {w : Var → M.Object}

@[simp] theorem Multiterm.optionDescribes_none {d : M.Object} : OptionDescribes M w none d := by
  simp only [OptionDescribes]

@[simp] theorem Multiterm.optionDescribes_some {t : Multiterm} {d : M.Object} :
    OptionDescribes M w (some t) d ↔ t.Describes M w d := by
  simp only [OptionDescribes]

theorem Cell.describeAll_iff {cells : List Cell} {ds : List M.Object} :
    DescribeAll M w cells ds ↔ List.Forall₂ (Describes M w) cells ds := by
  induction cells generalizing ds with
  | nil => cases ds <;> simp [DescribeAll]
  | cons c cells ih =>
    cases c
    cases ds <;> simp [DescribeAll, Describes, ih]

theorem Multiterm.describes_mk {f : Symbol} {args : List Cell} {d : M.Object} :
    Describes M w ⟨f, args⟩ d ↔
      ∃ ds, M.IsApp d f ds ∧ List.Forall₂ (Cell.Describes M w) args ds := by
  simp only [Describes, Cell.describeAll_iff]

theorem Cell.describes_var {v : Var} {d : M.Object} : (var v).Describes M w d ↔ w v = d := by
  simp [Cell.Describes, var]

theorem Cell.describes_nested {t : Multiterm} {d : M.Object} :
    (nested t).Describes M w d ↔ t.Describes M w d := by
  simp [Cell.Describes, nested]

/-- A cell with a variable can describe the object of this variable only. -/
theorem Cell.holds_iff {c : Cell} {v : Var} (h : v ∈ c.vars.toList) :
    c.Holds M w ↔ c.Describes M w (w v) := by
  constructor
  · rintro ⟨d, hd⟩
    rw [hd.1 v h]
    exact hd
  · exact fun hd => ⟨_, hd⟩

/-- What a multiterm says depends on the variables that occur in it only. -/
theorem Multiterm.describes_congr {w' : Var → M.Object} (t : Multiterm)
    (h : ∀ v ∈ t.vars, w v = w' v) {d : M.Object} : t.Describes M w d ↔ t.Describes M w' d := by
  induction t using Multiterm.induction generalizing d with
  | mk f args ih =>
    have hargs : ∀ ds, List.Forall₂ (Cell.Describes M w) args ds ↔
        List.Forall₂ (Cell.Describes M w') args ds := by
      refine fun ds => forall₂_congr_mem fun c hc e => ?_
      have hcell : ∀ v, v ∈ c.vars.toList ∨ v ∈ varsOfOption c.term → w v = w' v := by
        refine fun v hv => h v ?_
        rw [vars_mk]
        exact Cell.mem_varsOfArgs.2 ⟨c, hc, hv⟩
      refine and_congr (forall₂_congr fun v hv => by rw [hcell v (.inl hv)]) ?_
      cases ht : c.term with
      | none => simp
      | some t =>
        rw [optionDescribes_some, optionDescribes_some]
        exact ih c hc t ht fun v hv => hcell v (.inr (by rwa [ht]))
    simp only [describes_mk, hargs]

/-- The values of the variables of a multiterm lie below the object that it describes. -/
theorem Multiterm.below_of_mem_vars {t : Multiterm} {d : M.Object} (h : t.Describes M w d)
    {v : Var} (hv : v ∈ t.vars) : Relation.TransGen M.Arg d (w v) := by
  induction t using Multiterm.induction generalizing d with
  | mk f args ih =>
    obtain ⟨ds, hd, hds⟩ := describes_mk.1 h
    rw [vars_mk] at hv
    obtain ⟨c, hc, hv⟩ := Cell.mem_varsOfArgs.1 hv
    obtain ⟨e, he, hce⟩ := exists_mem_of_forall₂ hds hc
    have harg : M.Arg d e := ⟨f, ds, hd, he⟩
    rcases hv with hv | hv
    · rw [hce.1 v hv]
      exact .single harg
    · cases ht : c.term with
      | none => rw [ht] at hv; cases hv
      | some t =>
        rw [ht] at hv
        have hte : t.Describes M w e := by simpa [ht] using hce.2
        exact .head harg (ih c hc t ht hte hv)

/-! ### Merging -/

/-- A merge says what both multiterms say. -/
theorem Multiterm.describes_merge {l r m : Multiterm} (h : l.merge r = .ok m) (d : M.Object) :
    m.Describes M w d ↔ l.Describes M w d ∧ r.Describes M w d := by
  revert d
  refine merge_induction (P := fun l r m => ∀ d, m.Describes M w d ↔
    l.Describes M w d ∧ r.Describes M w d) ?_ h
  intro f ls rs ms hms d
  have hargs : ∀ ds, List.Forall₂ (Cell.Describes M w) ms ds ↔
      List.Forall₂ (Cell.Describes M w) ls ds ∧ List.Forall₂ (Cell.Describes M w) rs ds := by
    clear d
    induction hms with
    | nil => simp
    | @cons l r m ls rs ms hm _ ih =>
      have hcell : ∀ d, m.Describes M w d ↔ l.Describes M w d ∧ r.Describes M w d := by
        intro d
        cases hm with
        | left vs ws t => simp [Cell.Describes, or_imp, forall_and]; tauto
        | right vs ws t => simp [Cell.Describes, or_imp, forall_and]; tauto
        | both vs ws hstu => simp [Cell.Describes, or_imp, forall_and, hstu]; tauto
      intro ds
      cases ds with
      | nil => simp
      | cons d ds => simp only [List.forall₂_cons, hcell, ih]; tauto
  have hlen : ls.length = rs.length := by
    clear hargs
    induction hms with
    | nil => rfl
    | cons _ _ ih => simp [ih]
  simp only [describes_mk, hargs]
  constructor
  · rintro ⟨ds, hd, hl, hr⟩
    exact ⟨⟨ds, hd, hl⟩, ds, hd, hr⟩
  · rintro ⟨⟨ds, hd, hl⟩, es, he, hr⟩
    obtain rfl := M.args_unique hd he (by rw [← hl.length_eq, ← hr.length_eq, hlen])
    exact ⟨ds, hd, hl, hr⟩

theorem Multiterm.describes_mergeOption {l r m : Option Multiterm} (h : mergeOption l r = .ok m)
    (d : M.Object) :
    OptionDescribes M w m d ↔ OptionDescribes M w l d ∧ OptionDescribes M w r d := by
  obtain ⟨rfl, rfl⟩ | ⟨rfl, rfl⟩ | ⟨s, t, u, rfl, rfl, rfl, hu⟩ := mergeOption_eq_ok h
  · simp
  · simp
  · simpa using describes_merge hu d

/-- When two multiterms that describe one object can not be merged, the domain has a clash. -/
theorem Multiterm.hasClash_of_merge {l r : Multiterm} {e : Clash} (h : l.merge r = .error e)
    {d : M.Object} (hl : l.Describes M w d) (hr : r.Describes M w d) : M.HasClash := by
  induction l using Multiterm.induction generalizing r d with
  | mk f ls ih =>
    obtain ⟨g, rs⟩ := r
    rw [describes_mk] at hl hr
    obtain ⟨ds, hds, hl⟩ := hl
    obtain ⟨es, hes, hr⟩ := hr
    obtain hbetween | ⟨rfl, hlen, hargs⟩ := merge_eq_error h
    · refine ⟨d, f, g, ds, es, hds, hes, ?_⟩
      rw [← hl.length_eq, ← hr.length_eq]
      exact hbetween.differ
    · obtain rfl := M.args_unique hds hes (by rw [← hl.length_eq, ← hr.length_eq, hlen])
      clear h hds hes
      induction hl generalizing rs with
      | nil =>
        obtain rfl : rs = [] := List.length_eq_zero_iff.1 hlen.symm
        cases hargs
      | @cons l d ls ds hl hls ihls =>
        obtain ⟨r, rs, rfl⟩ := List.exists_cons_of_length_eq_add_one hlen.symm
        obtain ⟨hr, hrs⟩ := List.forall₂_cons.1 hr
        obtain hcell | ⟨-, -, hrest⟩ := Cell.mergeArgs_cons_eq_error hargs
        · obtain ⟨s, t, hs, ht, he⟩ := mergeOption_eq_error hcell
          have hsd : s.Describes M w d := by simpa [hs] using hl.2
          have htd : t.Describes M w d := by simpa [ht] using hr.2
          exact ih l List.mem_cons_self s hs he hsd htd
        · exact ihls (fun c hc => ih c (List.mem_cons_of_mem l hc)) rs (by simpa using hlen) hrest
            hrs

theorem Multiterm.hasClash_of_mergeOption {l r : Option Multiterm} {e : Clash}
    (h : mergeOption l r = .error e) {d : M.Object} (hl : OptionDescribes M w l d)
    (hr : OptionDescribes M w r d) : M.HasClash := by
  obtain ⟨s, t, rfl, rfl, he⟩ := mergeOption_eq_error h
  exact hasClash_of_merge he (optionDescribes_some.1 hl) (optionDescribes_some.1 hr)

/-! ### Peeling -/

/-- A multiterm says what the kept part and the cells that moved out say together. -/
theorem Multiterm.describes_peel {t : Multiterm} {frontier : List Cell}
    (h : t.peel.frontier = .ok frontier) (d : M.Object) :
    t.Describes M w d ↔ t.peel.kept.Describes M w d ∧ ∀ c ∈ frontier, c.Holds M w := by
  revert d
  refine peel_induction (P := fun t kept cells => ∀ d, t.Describes M w d ↔
    kept.Describes M w d ∧ ∀ c ∈ cells, c.Holds M w) ?_ h
  intro f args kept cells hp d
  have hargs : ∀ ds, List.Forall₂ (Cell.Describes M w) args ds ↔
      List.Forall₂ (Cell.Describes M w) kept ds ∧ ∀ c ∈ cells, c.Holds M w := by
    clear d
    induction hp with
    | nil => simp
    | @move c v args kept cells hv _ ih =>
      have hmem : v ∈ c.vars.toList := List.mem_of_head? hv
      intro ds
      cases ds with
      | nil => simp
      | cons d ds =>
        simp only [List.forall₂_cons, List.forall_mem_cons, ih, Cell.describes_var,
          Cell.holds_iff hmem]
        constructor
        · rintro ⟨hc, hds, hcells⟩
          obtain rfl := hc.1 v hmem
          exact ⟨⟨rfl, hds⟩, hc, hcells⟩
        · rintro ⟨⟨rfl, hds⟩, hc, hcells⟩
          exact ⟨hc, hds, hcells⟩
    | @stay s t moved args kept cells hs _ ih =>
      intro ds
      cases ds with
      | nil => simp
      | cons d ds =>
        simp only [List.forall₂_cons, List.forall_mem_append, ih, Cell.describes_nested, hs d]
        tauto
  simp only [describes_mk, hargs]
  constructor
  · rintro ⟨ds, hd, hk, hc⟩
    exact ⟨⟨ds, hd, hk⟩, hc⟩
  · rintro ⟨⟨ds, hd, hk⟩, hc⟩
    exact ⟨ds, hd, hk, hc⟩

end

end Multiequation
