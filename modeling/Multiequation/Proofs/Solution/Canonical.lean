import Multiequation.Proofs.Solution.Listing

/-!
# Canonical substitutions

A substitution is canonical for an order of names if its terms are over names that it does not bind,
and a name that it renames gets an earlier name. A system has at most one most general unifier that is
canonical for an order, and the substitution of a solution is canonical for the order of its written
variables.
-/

namespace Multiequation

namespace Substitution

/-- Only the given names are bound, to terms over those of them that are not bound. A name that is
bound to a variable comes after it. -/
structure Canonical (σ : Substitution) (names : List String) : Prop where
  key_mem : ∀ {x t}, σ.get? x = some t → x ∈ names
  vars : ∀ {x t}, σ.get? x = some t → ∀ y ∈ t.vars, y ∈ names ∧ σ.get? y = none
  earlier : ∀ {x y}, σ.get? x = some (.var y) → names.idxOf y < names.idxOf x

variable {ρ σ : Substitution} {names : List String} {E E' : List Equation} {x : String} {t : Term}

theorem image_of_get?_eq_none (h : σ.get? x = none) : σ.image x = .var x := by
  rw [image, h, Option.getD_none]

theorem image_of_get?_eq_some (h : σ.get? x = some t) : σ.image x = t := by
  rw [image, h, Option.getD_some]

/-- A term over names that are not bound stays as it is. -/
theorem apply_eq_self (h : ∀ y ∈ t.vars, σ.get? y = none) : σ.apply t = t :=
  (t.bind_congr fun y hy => image_of_get?_eq_none (h y hy)).trans t.bind_self

/-- To be most general is a matter of the unifiers. -/
theorem MostGeneral.congr (hσ : σ.MostGeneral E) (h : ∀ θ, Unifies θ E' ↔ Unifies θ E) :
    σ.MostGeneral E' :=
  ⟨(h σ.image).2 hσ.unifies, fun θ hθ => hσ.absorbed θ ((h θ).1 hθ)⟩

/-- A name that one of two canonical most general unifiers leaves free is free in the other. -/
theorem Canonical.get?_eq_none (hρ : ρ.Canonical names) (hσ : σ.Canonical names)
    (hρE : ρ.MostGeneral E) (hσE : σ.MostGeneral E) (hx : σ.get? x = none) : ρ.get? x = none := by
  cases ht : ρ.get? x with
  | none => rfl
  | some t =>
    have happly : t.bind σ.image = .var x := by
      have habsorb := hρE.apply_apply hσE (.var x)
      rwa [apply_var, apply_var, image_of_get?_eq_some ht, image_of_get?_eq_none hx] at habsorb
    cases t with
    | app f args => cases happly
    | var y =>
      -- `ρ` renames `x` to the earlier `y`, which `σ` would have to rename back
      have hlt := hρ.earlier ht
      rw [Term.bind_var] at happly
      cases hy : σ.get? y with
      | none =>
        rw [image_of_get?_eq_none hy] at happly
        cases happly
        exact absurd hlt (lt_irrefl _)
      | some u =>
        obtain rfl := (image_of_get?_eq_some hy).symm.trans happly
        exact absurd hlt (hσ.earlier hy).not_gt

/-- A system has one canonical most general unifier at most. -/
theorem Canonical.get?_eq (hρ : ρ.Canonical names) (hσ : σ.Canonical names)
    (hρE : ρ.MostGeneral E) (hσE : σ.MostGeneral E) (x : String) : ρ.get? x = σ.get? x := by
  cases hx : σ.get? x with
  | none => exact hρ.get?_eq_none hσ hρE hσE hx
  | some t =>
    cases hu : ρ.get? x with
    | none =>
      rw [hσ.get?_eq_none hρ hσE hρE hu] at hx
      cases hx
    | some u =>
      have hfree : ∀ y ∈ t.vars, ρ.get? y = none := fun y hy =>
        hρ.get?_eq_none hσ hρE hσE (hσ.vars hx y hy).2
      have habsorb := hσE.apply_apply hρE (.var x)
      rw [apply_var, apply_var, image_of_get?_eq_some hx, image_of_get?_eq_some hu,
        apply_eq_self hfree] at habsorb
      rw [habsorb]

end Substitution

namespace Solution.Solved

open Multiequation.Partition

variable {s s' : Solution} {id : ClassId} {x y : String} {v : Var}

/-- The full terms are over written variables that are not bound. -/
theorem mem_vars_value (h : s.Solved) (hid : id ∈ s.form.order) (hy : y ∈ (s.value id).vars) :
    y ∈ s.vars.names ∧ s.substitution.get? y = none := by
  induction hn : s.depth id using Nat.strong_induction_on generalizing id with
  | _ n ih =>
    cases ht : (s.classAt id).term with
    | none =>
      obtain ⟨u, hlt, hown, hcanonical, hvalue⟩ := h.exists_canonical_of_none hid ht
      rw [hvalue, Term.vars_var, List.mem_singleton] at hy
      obtain rfl := hy
      have hnumber := s.vars.number_name h.names_nodup hlt
      have hmem := Variables.name_mem hlt
      refine ⟨hmem, ?_⟩
      rw [h.get?_eq hmem (by rwa [hnumber]), hnumber, if_pos ⟨by rw [ht]; rfl, hcanonical⟩]
    | some t =>
      -- the variables of a term read back are those of the deeper classes it refers to
      rw [h.value_some hid ht, (h.closed.collapsed id hid t ht).mem_vars_read fun v hv =>
        h.exists_owner?_of_mem ht hv] at hy
      obtain ⟨v, hv, o, ho, hyo⟩ := hy
      exact ih _ (hn ▸ h.depth_lt hid ht hv ho) (h.owner_mem_order ho) hyo rfl

/-- A bound variable is bound to the full term of its class. -/
theorem exists_of_get?_eq_some (h : s.Solved) {t : Term} (hx : s.substitution.get? x = some t) :
    x ∈ s.vars.names ∧ ∃ id ∈ s.form.order,
      s.form.partition.owner? (s.vars.number x) = some id ∧ t = s.value id ∧
      ((s.classAt id).term = none → (s.classAt id).canonical? ≠ some (s.vars.number x)) := by
  have hmem : x ∈ s.vars.names := by
    by_contra hnot
    rw [h.get?_of_not_mem hnot] at hx
    cases hx
  obtain ⟨id, hid, hown⟩ := h.exists_owner?_of_name hmem
  rw [h.get?_eq hmem hown] at hx
  split_ifs at hx with hfree
  exact ⟨hmem, id, hid, hown, (Option.some.inj hx).symm, fun hnone hcanonical =>
    hfree ⟨by rw [hnone]; rfl, hcanonical⟩⟩

/-- The substitution of a solution is canonical. -/
theorem canonical (h : s.Solved) : s.substitution.Canonical s.vars.names where
  key_mem hx := (h.exists_of_get?_eq_some hx).1
  vars hx y hy := by
    obtain ⟨-, id, hid, -, rfl, -⟩ := h.exists_of_get?_eq_some hx
    exact h.mem_vars_value hid hy
  earlier {x y} hx := by
    obtain ⟨hmem, id, hid, hown, hvalue, hfree⟩ := h.exists_of_get?_eq_some hx
    cases ht : (s.classAt id).term with
    | none =>
      obtain ⟨u, hle, hu, hcanonical, hvar⟩ := h.exists_canonical hown
      rw [h.value_none hid ht, hvar] at hvalue
      obtain rfl := Term.var.inj hvalue
      have hnumber := s.vars.number_name h.names_nodup (h.lt_of_term_eq_none ht hu)
      have hne : u ≠ s.vars.number x := fun heq => hfree ht (heq ▸ hcanonical)
      have hindex : u.index ≠ (s.vars.number x).index := fun heq => hne (congrArg Var.mk heq)
      show (s.vars.number (s.vars.name u)).index < (s.vars.number x).index
      rw [hnumber]
      exact lt_of_le_of_ne hle hindex
    | some t =>
      obtain ⟨f, args⟩ := t
      rw [h.value_some hid ht, Multiterm.read_mk] at hvalue
      cases hvalue

/-- The first listed member stands for a class without a term. -/
theorem canonical?_listing (h : s.Solved) (hid : id ∈ s.form.order)
    (ht : (s.classAt id).term = none) {rest : List String}
    (hmembers : (s.listing id).members = x :: rest) :
    (s.classAt id).canonical? = some (s.vars.number x) := by
  obtain ⟨u, hlt, hown, hcanonical, -⟩ := h.exists_canonical_of_none hid ht
  have hnumber := s.vars.number_name h.names_nodup hlt
  have hx := (h.mem_listing_iff hid).1 (hmembers ▸ List.mem_cons_self)
  have hu : s.vars.name u ∈ (s.listing id).members :=
    (h.mem_listing_iff hid).2 ⟨Variables.name_mem hlt, by rwa [hnumber]⟩
  have hfirst := h.pairwise_listing hid
  rw [hmembers] at hu hfirst
  obtain hux | hrest := List.mem_cons.1 hu
  · rw [hcanonical, ← hux, hnumber]
  · -- a later member cannot have the least number
    have hlater := (List.pairwise_cons.1 hfirst).1 _ hrest
    have hle := canonical?_le hcanonical
      ((h.proper.mem_members_of_live (h.closed.live id hid)).2 hx.2)
    rw [hnumber] at hlater
    exact absurd hle hlater.not_ge

/-- The first listed member of a class without a term is free, and the others are bound to it. -/
theorem unconstrained (h : s.Solved) {c : SolvedClass} (hc : c ∈ s.classes) (ht : c.term = none) :
    ∃ x rest, c.members = x :: rest ∧ s.substitution.get? x = none ∧
      ∀ y ∈ rest, s.vars.names.idxOf x < s.vars.names.idxOf y ∧
        s.substitution.get? y = some (.var x) := by
  obtain ⟨id, hid, hne, rfl⟩ := mem_classes.1 hc
  obtain ⟨x, rest, hmembers⟩ := List.exists_cons_of_ne_nil hne
  have hnone : (s.classAt id).term = none := Option.map_eq_none_iff.1 ht
  have hcanonical := h.canonical?_listing hid hnone hmembers
  have hmem : ∀ y ∈ x :: rest, y ∈ s.vars.names ∧
      s.form.partition.owner? (s.vars.number y) = some id := fun y hy =>
    (h.mem_listing_iff hid).1 (hmembers ▸ hy)
  obtain ⟨hx, hown⟩ := hmem x List.mem_cons_self
  have hvalue : s.value id = .var x := by
    rw [h.value_none hid hnone, canonicalVar, canonicalName, hcanonical]
    exact congrArg Term.var (Variables.name_number hx)
  refine ⟨x, rest, hmembers, ?_, fun y hy => ?_⟩
  · rw [h.get?_eq hx hown, if_pos ⟨by rw [hnone]; rfl, hcanonical⟩]
  · obtain ⟨hyn, hyown⟩ := hmem y (List.mem_cons_of_mem _ hy)
    have hlt := (List.pairwise_cons.1 (hmembers ▸ h.pairwise_listing hid)).1 y hy
    refine ⟨hlt, ?_⟩
    rw [h.get?_eq hyn hyown, if_neg, hvalue]
    rintro ⟨-, hy⟩
    rw [Option.some.inj (hcanonical.symm.trans hy)] at hlt
    exact hlt.false

/-! ### The substitution as a map -/

theorem binding?_eq_map (h : s.Solved) (hv : v.index < s.vars.names.length) :
    s.binding? v = (s.substitution.get? (s.vars.name v)).map (s.vars.name v, ·) := by
  have hnumber := s.vars.number_name h.names_nodup hv
  obtain ⟨id, hid⟩ := h.proper.exists_owner?_of_lt hv
  rw [binding?_eq hid, h.get?_eq (Variables.name_mem hv) (by rwa [hnumber]), hnumber]
  split_ifs <;> rfl

/-- Solutions over the same variables have the same substitution if it binds names to the same
terms. -/
theorem substitution_congr (h : s.Solved) (h' : s'.Solved) (hnames : s'.vars.names = s.vars.names)
    (hget : ∀ x, s'.substitution.get? x = s.substitution.get? x) :
    s'.substitution = s.substitution := by
  have hwritten : s'.vars.written = s.vars.written := by
    rw [Variables.written, Variables.written, hnames]
  rw [h'.substitution_eq, h.substitution_eq, hwritten]
  refine congrArg Substitution.ofList (List.filterMap_congr fun v hv => ?_)
  obtain ⟨i, hi, rfl⟩ := List.mem_map.1 hv
  have hlt : i < s.vars.names.length := List.mem_range.1 hi
  have hname : s'.vars.name ⟨i⟩ = s.vars.name ⟨i⟩ := by
    rw [Variables.name, Variables.name, hnames]
  rw [h.binding?_eq_map hlt, h'.binding?_eq_map (hnames ▸ hlt), hname, hget]

end Solution.Solved

end Multiequation
