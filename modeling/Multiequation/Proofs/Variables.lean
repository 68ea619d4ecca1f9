import Multiequation.Proofs.Lists
import Multiequation.Variables

/-!
# Names and numbers of variables

The written variables of a system have different names, and the number of a written variable and the
name of its number lead back to each other.
-/

namespace Multiequation

theorem Var.index_injective : Function.Injective Var.index := fun ⟨_⟩ ⟨_⟩ h => congrArg Var.mk h

namespace Variables

variable {vars vars' : Variables} {x y : String} {v : Var}

theorem number_lt (hx : x ∈ vars.names) : (vars.number x).index < vars.names.length :=
  List.idxOf_lt_length_iff.2 hx

/-- Numbers depend on the names alone. -/
theorem number_congr (h : vars'.names = vars.names) : vars'.number = vars.number := by
  funext x
  rw [number, number, h]

theorem name_eq (hv : v.index < vars.names.length) : vars.name v = vars.names[v.index] := by
  rw [name, List.getElem?_eq_getElem hv]

theorem name_mem (hv : v.index < vars.names.length) : vars.name v ∈ vars.names := by
  rw [name_eq hv]
  exact List.getElem_mem hv

theorem name_number (hx : x ∈ vars.names) : vars.name (vars.number x) = x := by
  rw [name_eq (number_lt hx)]
  exact List.getElem_idxOf _

theorem number_name (hnodup : vars.names.Nodup) (hv : v.index < vars.names.length) :
    vars.number (vars.name v) = v := by
  rw [name_eq hv, number, hnodup.idxOf_getElem]

theorem mem_ofEquations {E : List Equation} : x ∈ (ofEquations E).names ↔ ∃ e ∈ E, x ∈ e.vars := by
  simp [ofEquations, List.mem_eraseDups]

theorem nodup_ofEquations (E : List Equation) : (ofEquations E).names.Nodup :=
  nodup_eraseDups _

/-! ### First occurrences -/

/-- Which of two names occurs first is seen behind the head if this is neither of them. -/
theorem idxOf_cons_lt_iff {a : String} {names names' : List String}
    (h : a ≠ x → a ≠ y → (names.idxOf x < names.idxOf y ↔ names'.idxOf x < names'.idxOf y)) :
    (a :: names).idxOf x < (a :: names).idxOf y ↔
      (a :: names').idxOf x < (a :: names').idxOf y := by
  simp only [List.idxOf_cons, beq_iff_eq, Bool.cond_eq_ite]
  split_ifs with hx hy hy <;> simp [h, hx, hy]

/-- Which of two names occurs first does not depend on other names. -/
theorem idxOf_filter_lt_iff {p : String → Bool} (hx : p x) (hy : p y) (names : List String) :
    (names.filter p).idxOf x < (names.filter p).idxOf y ↔ names.idxOf x < names.idxOf y := by
  induction names with
  | nil => rfl
  | cons a names ih =>
    by_cases ha : p a
    · rw [List.filter_cons_of_pos ha]
      exact idxOf_cons_lt_iff fun _ _ => ih
    · have hne : ∀ z, p z → a ≠ z := by
        rintro z hz rfl
        exact ha hz
      rw [List.filter_cons_of_neg ha, ih, List.idxOf_cons_ne _ (hne x hx),
        List.idxOf_cons_ne _ (hne y hy), Nat.succ_lt_succ_iff]

/-- Without duplicates, names stand in the order of their first occurrences. -/
theorem idxOf_eraseDups_lt_iff (names : List String) :
    names.eraseDups.idxOf x < names.eraseDups.idxOf y ↔ names.idxOf x < names.idxOf y := by
  induction names using eraseDups_induction with
  | nil => rfl
  | cons a as ih =>
    rw [List.eraseDups_cons]
    refine idxOf_cons_lt_iff fun hx hy => ih.trans (idxOf_filter_lt_iff ?_ ?_ as)
    · simpa using hx.symm
    · simpa using hy.symm

end Variables

end Multiequation
