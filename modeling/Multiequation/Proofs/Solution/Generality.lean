import Multiequation.Proofs.Partition.Description
import Multiequation.Proofs.Solution.Expansion
import Multiequation.Proofs.Variables

/-!
# The substitution of a solution

The substitution of a solution maps every written variable to the full term of its class. Among the
terms these values are as the solved form says, and any other values of which the solved form is true
are what replacing variables makes of them: the substitution is most general.
-/

namespace Multiequation

namespace Solution

open Multiequation.Partition

variable {s : Solution} {id : ClassId} {u v : Var} {x : String}

/-- The member that stands for a class is one of its members. -/
theorem canonical?_mem {cls : Class} (h : cls.members.toList ≠ []) :
    ∃ u ∈ cls.members.toList, cls.canonical? = some u := by
  cases hmin : (cls.members.toList.map Var.index).min? with
  | none => simp [h] at hmin
  | some i =>
    obtain ⟨u, hu, rfl⟩ := List.mem_map.1 (List.min?_mem hmin)
    exact ⟨u, hu, by rw [Class.canonical?, hmin]; rfl⟩

/-- No member comes before the one that stands for the class. -/
theorem canonical?_le {cls : Class} (h : cls.canonical? = some u) (hv : v ∈ cls.members.toList) :
    u.index ≤ v.index := by
  obtain ⟨i, hi, rfl⟩ := Option.map_eq_some_iff.1 h
  exact (List.min?_eq_some_iff.1 hi).2 _ (List.mem_map_of_mem hv)

namespace Solved

/-- For a class stands the first of its members. -/
theorem exists_canonical (h : s.Solved) (hv : s.form.partition.owner? v = some id) :
    ∃ u : Var, u.index ≤ v.index ∧ s.form.partition.owner? u = some id ∧
      (s.classAt id).canonical? = some u ∧ s.canonicalVar id = .var (s.vars.name u) := by
  have hlive := h.proper.owner_mem_liveClasses hv
  have hmem := (h.proper.mem_members_of_live hlive).2 hv
  obtain ⟨u, hu, hcanonical⟩ := canonical?_mem (List.ne_nil_of_mem hmem)
  refine ⟨u, canonical?_le hcanonical hmem, (h.proper.mem_members_of_live hlive).1 hu, hcanonical,
    ?_⟩
  rw [canonicalVar, canonicalName, classAt, hcanonical]

/-- A class without a multiterm has written members only. -/
theorem lt_of_term_eq_none (h : s.Solved) (ht : (s.classAt id).term = none)
    (hv : s.form.partition.owner? v = some id) : v.index < s.vars.names.length := by
  by_contra hge
  have hsome := h.proper.isSome_of_le (not_lt.1 hge) hv
  rw [show (s.form.partition.classAt id).term = none from ht] at hsome
  cases hsome

/-- The full term of a class without a multiterm is the member that stands for it. -/
theorem exists_canonical_of_none (h : s.Solved) (hid : id ∈ s.form.order)
    (ht : (s.classAt id).term = none) : ∃ u : Var, u.index < s.vars.names.length ∧
      s.form.partition.owner? u = some id ∧ (s.classAt id).canonical? = some u ∧
      s.value id = .var (s.vars.name u) := by
  obtain ⟨v, -, hv⟩ := h.proper.exists_owner (h.closed.live id hid)
  obtain ⟨u, -, hu, hcanonical, hvar⟩ := h.exists_canonical hv
  exact ⟨u, h.lt_of_term_eq_none ht hu, hu, hcanonical, (h.value_none hid ht).trans hvar⟩

theorem substitution_eq (h : s.Solved) :
    s.substitution = .ofList (s.vars.written.filterMap s.binding?) :=
  congrArg Substitution.ofList (h.yields_bindings _ [] s.memoValid_nil).1

/-- The bindings are those of the names of the written variables. -/
theorem mem_bindings_iff (h : s.Solved) {t : Term} :
    (x, t) ∈ s.vars.written.filterMap s.binding? ↔
      x ∈ s.vars.names ∧ s.binding? (s.vars.number x) = some (x, t) := by
  rw [List.mem_filterMap]
  constructor
  · rintro ⟨v, hv, hb⟩
    obtain ⟨i, hi, rfl⟩ := List.mem_map.1 hv
    have hlt : i < s.vars.names.length := List.mem_range.1 hi
    obtain rfl : x = s.vars.name ⟨i⟩ := by
      rw [binding?] at hb
      split at hb
      · cases hb
      · split_ifs at hb
        exact (Prod.mk.inj (Option.some.inj hb)).1.symm
    rw [s.vars.number_name h.names_nodup hlt]
    exact ⟨Variables.name_mem hlt, hb⟩
  · rintro ⟨hx, hb⟩
    exact ⟨_, List.mem_map.2 ⟨_, List.mem_range.2 (Variables.number_lt hx), rfl⟩, hb⟩

/-- A written variable is bound to the full term of its class, unless it stands for the class. -/
theorem get?_eq (h : s.Solved) (hx : x ∈ s.vars.names)
    (hid : s.form.partition.owner? (s.vars.number x) = some id) :
    s.substitution.get? x = if (s.classAt id).term.isNone ∧
      (s.classAt id).canonical? = some (s.vars.number x) then none else some (s.value id) := by
  have hbinding : s.binding? (s.vars.number x) = if (s.classAt id).term.isNone ∧
      (s.classAt id).canonical? = some (s.vars.number x) then none else some (x, s.value id) := by
    rw [binding?_eq hid, Variables.name_number hx]
  have hagree : ∀ b ∈ s.vars.written.filterMap s.binding?, b.1 = x → b.2 = s.value id := by
    rintro ⟨_, t⟩ hb rfl
    obtain ⟨-, hb⟩ := h.mem_bindings_iff.1 hb
    rw [hbinding] at hb
    split_ifs at hb
    exact (Prod.mk.inj (Option.some.inj hb)).2.symm
  have hmem : x ∈ (s.vars.written.filterMap s.binding?).map Prod.fst ↔
      ¬ ((s.classAt id).term.isNone ∧ (s.classAt id).canonical? = some (s.vars.number x)) := by
    simp [h.mem_bindings_iff, hx, hbinding]
  rw [h.substitution_eq, Substitution.get?_ofList hagree]
  simp only [hmem, ite_not]

/-- No other name is bound. -/
theorem get?_of_not_mem (h : s.Solved) (hx : x ∉ s.vars.names) : s.substitution.get? x = none := by
  have hfree : ∀ t, (x, t) ∉ s.vars.written.filterMap s.binding? := fun t hb =>
    hx (h.mem_bindings_iff.1 hb).1
  rw [h.substitution_eq, Substitution.get?_ofList (t := .var x), if_neg]
  · rintro hmem
    obtain ⟨⟨_, t⟩, hb, rfl⟩ := List.mem_map.1 hmem
    exact hfree t hb
  · rintro ⟨_, t⟩ hb rfl
    exact absurd hb (hfree t)

/-- A written variable stands for the full term of its class. -/
theorem image_eq (h : s.Solved) (hx : x ∈ s.vars.names)
    (hid : s.form.partition.owner? (s.vars.number x) = some id) :
    s.substitution.image x = s.value id := by
  rw [Substitution.image, h.get?_eq hx hid]
  split_ifs with hcanonical
  · -- the only written variables that are not bound stand for their classes themselves
    obtain ⟨hterm, hnumber⟩ := hcanonical
    obtain ⟨u, -, -, hu, hvalue⟩ := h.exists_canonical_of_none (h.owner_mem_order hid)
      (Option.isNone_iff_eq_none.1 hterm)
    rw [Option.getD_none, hvalue, ← Option.some.inj (hnumber.symm.trans hu),
      Variables.name_number hx]
  · rfl

/-- Every other name stands for itself. -/
theorem image_of_not_mem (h : s.Solved) (hx : x ∉ s.vars.names) :
    s.substitution.image x = .var x := by
  rw [Substitution.image, h.get?_of_not_mem hx]
  rfl

/-! ### The values of the classes -/

/-- The full terms are values of which the solved form is true. -/
theorem asserts_value (h : s.Solved) : Asserts .terms
    (fun v => ((s.form.partition.owner? v).map s.value).getD (.var "_")) s.form.partition := by
  intro v id hv
  refine ⟨fun u hu => by simp only [hu, hv], ?_⟩
  have hid := h.owner_mem_order hv
  cases ht : (s.form.partition.classAt id).term with
  | none => simp
  | some t =>
    have hval : ∀ u ∈ t.vars, ∃ o, s.form.partition.owner? u = some o ∧
        s.value o = ((s.form.partition.owner? u).map s.value).getD (.var "_") := by
      intro u hu
      obtain ⟨o, ho⟩ := h.exists_owner?_of_mem ht hu
      exact ⟨o, ho, by rw [ho]; rfl⟩
    rw [Multiterm.optionDescribes_some,
      (h.closed.collapsed id hid t ht).describes_terms_iff hval, ← h.value_some hid ht]
    dsimp only
    rw [hv, Option.map_some, Option.getD_some]

/-- Replacing variables in the full terms yields any other values of which the solved form is
true. -/
theorem bind_value (h : s.Solved) {θ : String → Term} {w : Var → Term}
    (hw : ∀ x ∈ s.vars.names, w (s.vars.number x) = θ x)
    (ha : Asserts .terms w s.form.partition) (hv : s.form.partition.owner? v = some id) :
    (s.value id).bind θ = w v := by
  have hid := h.owner_mem_order hv
  induction hn : s.depth id using Nat.strong_induction_on generalizing id v with
  | _ n ih =>
    cases ht : (s.classAt id).term with
    | none =>
      obtain ⟨u, hlt, hown, -, hvalue⟩ := h.exists_canonical_of_none hid ht
      rw [hvalue, Term.bind_var, ← hw _ (Variables.name_mem hlt),
        s.vars.number_name h.names_nodup hlt, ha.eq hown hv]
    | some t =>
      have hcollapsed := h.closed.collapsed id hid t ht
      have howned : ∀ u ∈ t.vars, ∃ o, s.form.partition.owner? u = some o :=
        fun u hu => h.exists_owner?_of_mem ht hu
      have hterm := ha.term hv
      rw [show (s.form.partition.classAt id).term = some t from ht,
        Multiterm.optionDescribes_some] at hterm
      rw [h.value_some hid ht, hcollapsed.bind_read howned]
      refine (hcollapsed.describes_terms_iff fun u hu => ?_).1 hterm
      obtain ⟨o, ho⟩ := howned u hu
      have hlt := h.depth_lt hid ht hu ho
      exact ⟨o, ho, ih _ (hn ▸ hlt) ho (h.owner_mem_order ho) rfl⟩

/-- If the solved form says of the written variables what the equations say, the substitution is a
most general unifier. -/
theorem mostGeneral {E : List Equation} (h : s.Solved)
    (hvars : ∀ e ∈ E, ∀ x ∈ e.vars, x ∈ s.vars.names)
    (hsound : ∀ w, Asserts .terms w s.form.partition →
      ∀ e ∈ E, e.Holds .terms fun x => w (s.vars.number x))
    (hcomplete : ∀ θ : String → Term, (∀ e ∈ E, e.Holds .terms θ) → ∃ w : Var → Term,
      (∀ x ∈ s.vars.names, w (s.vars.number x) = θ x) ∧ Asserts .terms w s.form.partition) :
    s.substitution.MostGeneral E := by
  have hown : ∀ x ∈ s.vars.names, ∃ id, s.form.partition.owner? (s.vars.number x) = some id :=
    fun x hx => h.proper.exists_owner?_of_lt (Variables.number_lt hx)
  constructor
  · refine holds_terms_iff.1 fun e he => (e.holds_congr fun x hx => ?_).1
      (hsound _ h.asserts_value e he)
    have hx := hvars e he x hx
    obtain ⟨id, hid⟩ := hown x hx
    rw [h.image_eq hx hid, hid]
    rfl
  · intro θ hθ
    obtain ⟨w, hw, ha⟩ := hcomplete θ (holds_terms_iff.2 hθ)
    refine Substitution.bind_apply_of_image fun x => ?_
    by_cases hx : x ∈ s.vars.names
    · obtain ⟨id, hid⟩ := hown x hx
      rw [h.image_eq hx hid, h.bind_value hw ha hid, hw x hx]
    · rw [h.image_of_not_mem hx, Term.bind_var]

end Solved

end Solution

end Multiequation
