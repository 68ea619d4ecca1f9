import Multiequation.Proofs.Lists
import Multiequation.Proofs.Unifier
import Mathlib.Logic.Relation

/-!
# Domains in which equations are read

What a system of equations says can be read in any domain of objects in which some objects are
applications of a symbol to objects. The terms are one such domain, and a reading in it is a unifier.
The classes of subterms that a system equates are another one; there an object may be an application
of two symbols, or lie below itself, which no term can. The engine is proved correct once for all
domains, and the two domains then give the two halves of its specification.
-/

namespace Multiequation

/-- Objects, and which of them are applications of which symbol to which objects. An object is an
application of one symbol to one number of objects in one way only. -/
structure Domain where
  Object : Type
  IsApp : Object → Symbol → List Object → Prop
  args_unique : ∀ {d f ds es}, IsApp d f ds → IsApp d f es → ds.length = es.length → ds = es

namespace Domain

/-- An object is an application in two ways that disagree in the symbol or in the number of
arguments. -/
def HasClash (M : Domain) : Prop :=
  ∃ d f g ds es, M.IsApp d f ds ∧ M.IsApp d g es ∧ (f ≠ g ∨ ds.length ≠ es.length)

/-- `e` is an argument of `d`. -/
def Arg (M : Domain) (d e : M.Object) : Prop :=
  ∃ f ds, M.IsApp d f ds ∧ e ∈ ds

/-- An object lies below itself. -/
def HasCycle (M : Domain) : Prop :=
  ∃ d, Relation.TransGen M.Arg d d

/-- Every symbol can be applied to any objects. -/
def IsTotal (M : Domain) : Prop :=
  ∀ f ds, ∃ d, M.IsApp d f ds

/-- The domain of the terms. -/
abbrev terms : Domain where
  Object := Term
  IsApp t f ts := t = .app f ts
  args_unique := by
    rintro d f ds es rfl h -
    simpa using h

theorem terms_isTotal : terms.IsTotal := fun f ds => ⟨.app f ds, rfl⟩

theorem terms_not_hasClash : ¬ terms.HasClash := by
  rintro ⟨d, f, g, ds, es, hf, hg, hne⟩
  obtain ⟨rfl, rfl⟩ := Term.app.inj (hf.symm.trans hg)
  simp at hne

theorem size_lt_of_below {s t : Term} (h : Relation.TransGen terms.Arg s t) : t.size < s.size := by
  induction h with
  | single h =>
    obtain ⟨f, ts, rfl, ht⟩ := h
    exact Term.size_lt_of_mem f ht
  | tail _ h ih =>
    obtain ⟨f, ts, rfl, ht⟩ := h
    exact (Term.size_lt_of_mem f ht).trans ih

theorem terms_not_hasCycle : ¬ terms.HasCycle := by
  rintro ⟨t, ht⟩
  exact (size_lt_of_below ht).false

end Domain

/-! ### Terms as descriptions of objects -/

mutual

/-- The object `d` is as the term says when every variable stands for its value. -/
def Term.Describes (M : Domain) (v : String → M.Object) : Term → M.Object → Prop
  | .var x, d => v x = d
  | .app f args, d => ∃ ds, M.IsApp d f ds ∧ Term.DescribeAll M v args ds

/-- The objects are, one by one, as the terms say. -/
def Term.DescribeAll (M : Domain) (v : String → M.Object) : List Term → List M.Object → Prop
  | [], [] => True
  | t :: ts, d :: ds => t.Describes M v d ∧ Term.DescribeAll M v ts ds
  | _, _ => False

end

namespace Term

theorem describes_var {M : Domain} {v : String → M.Object} {x : String} {d : M.Object} :
    (var x).Describes M v d ↔ v x = d := by
  rw [Describes]

theorem describes_app {M : Domain} {v : String → M.Object} {f : Symbol} {args : List Term}
    {d : M.Object} :
    (app f args).Describes M v d ↔ ∃ ds, M.IsApp d f ds ∧ DescribeAll M v args ds := by
  rw [Describes]

theorem describeAll_iff {M : Domain} {v : String → M.Object} {ts : List Term}
    {ds : List M.Object} : DescribeAll M v ts ds ↔ List.Forall₂ (Describes M v) ts ds := by
  induction ts generalizing ds with
  | nil => cases ds <;> simp [DescribeAll]
  | cons t ts ih => cases ds <;> simp [DescribeAll, ih]

/-- What a term describes depends on the variables that occur in it only. -/
theorem describes_congr {M : Domain} {v v' : String → M.Object} (t : Term)
    (h : ∀ x ∈ t.vars, v x = v' x) {d : M.Object} : t.Describes M v d ↔ t.Describes M v' d := by
  induction t using Term.induction generalizing d with
  | var x => rw [describes_var, describes_var, h x (by simp)]
  | app f args ih =>
    have hargs : ∀ ds, List.Forall₂ (Describes M v) args ds ↔
        List.Forall₂ (Describes M v') args ds := fun ds =>
      forall₂_congr_mem fun t ht e => ih t ht fun x hx => h x (by simpa using ⟨t, ht, hx⟩)
    simp only [describes_app, describeAll_iff, hargs]

/-- Where every symbol can be applied, every term describes an object. -/
theorem exists_describes {M : Domain} (hM : M.IsTotal) (v : String → M.Object) (t : Term) :
    ∃ d, t.Describes M v d := by
  induction t using Term.induction with
  | var x => exact ⟨v x, describes_var.2 rfl⟩
  | app f args ih =>
    obtain ⟨ds, hds⟩ := exists_forall₂ ih
    obtain ⟨d, hd⟩ := hM f ds
    exact ⟨d, describes_app.2 ⟨ds, hd, describeAll_iff.2 hds⟩⟩

/-- Among the terms, a term describes what it becomes when its variables are replaced. -/
theorem describes_terms_iff {θ : String → Term} (t : Term) {d : Term} :
    t.Describes .terms θ d ↔ t.bind θ = d := by
  induction t using Term.induction generalizing d with
  | var x => rw [describes_var, bind_var]
  | app f args ih =>
    have hargs : ∀ ds : List Term, DescribeAll .terms θ args ds ↔ args.map (bind θ) = ds :=
      fun ds => describeAll_iff.trans (forall₂_iff_map_eq fun t ht e => ih t ht)
    rw [describes_app, bind_app]
    constructor
    · rintro ⟨ds, rfl, hds⟩
      rw [(hargs ds).1 hds]
    · rintro rfl
      exact ⟨_, rfl, (hargs _).2 rfl⟩

end Term

/-- Both sides of the equation describe one object. -/
def Equation.Holds (M : Domain) (v : String → M.Object) (e : Equation) : Prop :=
  ∃ d, e.left.Describes M v d ∧ e.right.Describes M v d

theorem Equation.holds_var_left {M : Domain} {v : String → M.Object} {x : String} {t : Term} :
    Equation.Holds M v ⟨.var x, t⟩ ↔ t.Describes M v (v x) := by
  simp [Equation.Holds, Term.describes_var]

theorem Equation.holds_congr {M : Domain} {v v' : String → M.Object} (e : Equation)
    (h : ∀ x ∈ e.vars, v x = v' x) : e.Holds M v ↔ e.Holds M v' := by
  rw [Equation.vars, List.forall_mem_append] at h
  simp only [Equation.Holds, e.left.describes_congr h.1, e.right.describes_congr h.2]

theorem holds_terms_iff {θ : String → Term} {E : List Equation} :
    (∀ e ∈ E, e.Holds .terms θ) ↔ Unifies θ E := by
  refine forall₂_congr fun e _ => ?_
  constructor
  · rintro ⟨d, hl, hr⟩
    rw [Term.describes_terms_iff] at hl hr
    rw [hl, hr]
  · intro h
    exact ⟨_, (Term.describes_terms_iff _).2 rfl, (Term.describes_terms_iff _).2 h.symm⟩

end Multiequation
