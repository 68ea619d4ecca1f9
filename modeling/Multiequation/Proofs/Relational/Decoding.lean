import Multiequation.Proofs.Relational.Agreement
import Multiequation.Proofs.Relational.Termination

/-!
# Encoding loses nothing

A name keeps its number while more terms are encoded, so a value is decoded to the term that it came
from at once and at any time later, and encoding that term again gives the same value. What the bindings
of a system make of a variable encodes a term too, so the search for a unifier fails only when
unification does, and no bound variable is left in what it binds.
-/

namespace Multiequation.Relational

open Bindings

namespace Encoding

variable {enc enc' : Encoding} {t u : Term}

/-! ### Encoding one term after the other -/

/-- The second encoding comes from the first one by encoding terms and numbering names. -/
inductive Later (enc : Encoding) : Encoding → Prop
  | refl : Later enc enc
  | number {enc' : Encoding} (x : String) : Later enc enc' → Later enc ((number x).run enc').2
  | encode {enc' : Encoding} (t : Term) : Later enc enc' → Later enc ((encode t).run enc').2

/-- Names that have been met keep their places. -/
theorem Later.isPrefix (h : Later enc enc') : enc.names <+: enc'.names := by
  induction h with
  | refl => exact List.prefix_rfl
  | number x _ ih => rw [number_eq]; exact ih.trans (prefix_meet _ x)
  | encode t _ ih => rw [encode_eq]; exact ih.trans (prefix_meetAll _)

/-- The variables of an encoded term have been met, and its value is the one under all later numbers. -/
theorem Later.encode_eq_toValue (h : Later ((Encoding.encode t).run enc).2 enc') :
    (∀ x ∈ t.vars, x ∈ enc'.names) ∧
      ((Encoding.encode t).run enc).1 = t.toValue enc'.index := by
  have hnames := h.isPrefix
  rw [encode_eq] at hnames ⊢
  have hmem : ∀ x ∈ t.vars, x ∈ (enc.meetAll t.vars).names := fun x hx => mem_meetAll.2 (.inr hx)
  exact ⟨fun x hx => hnames.subset (hmem x hx),
    t.toValue_congr fun x hx => (index_eq_of_mem hnames (hmem x hx)).symm⟩

theorem Later.decode?_encode (h : Later ((Encoding.encode t).run enc).2 enc') :
    enc'.decode? ((Encoding.encode t).run enc).1 = some t := by
  obtain ⟨hvars, hvalue⟩ := h.encode_eq_toValue
  rw [hvalue, decode?_toValue hvars]

/-- Encoding a term again gives the same value and meets no new name. -/
theorem Later.encode_again (h : Later ((Encoding.encode t).run enc).2 enc') :
    (Encoding.encode t).run enc' = (((Encoding.encode t).run enc).1, enc') := by
  obtain ⟨hvars, hvalue⟩ := h.encode_eq_toValue
  rw [encode_eq t enc', meetAll_of_mem hvars, hvalue]

/-- Another term that is encoded later has another value. -/
theorem Later.eq_of_encode_eq (h : Later ((Encoding.encode t).run enc).2 enc')
    (heq : ((Encoding.encode u).run enc').1 = ((Encoding.encode t).run enc).1) : u = t := by
  have hu : ((Encoding.encode u).run enc').2.decode? ((Encoding.encode u).run enc').1 = some u :=
    Later.refl.decode?_encode
  rw [heq, (h.encode u).decode?_encode] at hu
  exact (Option.some.inj hu).symm

end Encoding

open Encoding

/-! ### Decoding what the variables become -/

variable {E : List Equation} {enc : Encoding} {s : Bindings} {r : String → Term} {x y : String}

theorem Encoding.getElem?_index (hx : x ∈ enc.names) : enc.names[enc.index x]? = some x := by
  rw [index, List.getElem?_eq_getElem (List.idxOf_lt_length_iff.2 hx), List.getElem_idxOf]

namespace Represents

theorem decode?_eq (h : Represents enc s r) (hx : x ∈ enc.names) :
    enc.decode? (s.walkStar (.var (enc.index x))) = some (r x) := by
  rw [h.walkStar x hx, decode?_toValue (h.vars x hx)]

/-- A variable that is left in what a variable becomes stands for itself. -/
theorem eq_var_of_mem_vars (h : Represents enc s r) (hs : s.Triangular) (hx : x ∈ enc.names)
    (hy : y ∈ (r x).vars) : r y = .var y := by
  have hmem := h.vars x hx y hy
  have hfree : s.get? (enc.index y) = none := by
    refine (hs.resolves (.var (enc.index x))).get?_of_mem_vars ?_
    rw [h.walkStar x hx, Term.vars_toValue]
    exact List.mem_map_of_mem hy
  have hself := h.walkStar y hmem
  rw [walkStar_var_of_none hs hfree] at hself
  refine Term.toValue_inj (injOn_index enc) (h.vars y hmem) (by simpa using hmem) ?_
  rw [← hself, Term.toValue_var]

theorem get?_eq (h : Represents enc s r) (x : String) :
    (Substitution.ofList (enc.names.filterMap fun x =>
      if r x = .var x then none else some (x, r x))).get? x =
        if r x = .var x then none else some (r x) := by
  rw [Substitution.get?_ofList (t := r x)]
  · by_cases hself : r x = .var x
    · rw [if_pos hself, if_neg]
      rintro hx
      obtain ⟨b, hb, rfl⟩ := List.mem_map.1 hx
      obtain ⟨y, -, hy⟩ := List.mem_filterMap.1 hb
      split_ifs at hy with hne
      obtain rfl := Option.some.inj hy
      exact hne hself
    · have hx : x ∈ enc.names := by
        by_contra hnot
        exact hself (h.free x hnot)
      rw [if_neg hself, if_pos]
      exact List.mem_map.2 ⟨(x, r x), List.mem_filterMap.2 ⟨x, hx, if_neg hself⟩, rfl⟩
  · rintro b hb rfl
    obtain ⟨y, -, hy⟩ := List.mem_filterMap.1 hb
    split_ifs at hy
    obtain rfl := Option.some.inj hy
    rfl

end Represents

/-- Unifying sides of the equations makes bindings that can be read back. -/
theorem exists_represents_of_foldlM {ps : List (Value × Value)}
    (hps : ps ⊆ E.map (ofEquations E).sides)
    (hfold : ps.foldlM (fun s p => unify p.1 p.2 s) .empty = some s) :
    s.Triangular ∧ ∃ r, Represents (ofEquations E) s r := by
  obtain ⟨s', hs', hunified⟩ | ⟨hnone, -⟩ := triangular_empty.foldlM_unify ps
  · obtain rfl := Option.some.inj (hs'.symm.trans hfold)
    have htri := hunified.triangular triangular_empty
    exact ⟨htri, exists_represents htri (hunified.coded nofun fun p hp => codes_sides (hps hp))⟩
  · rw [hnone] at hfold
    cases hfold

/-- A unifier is found when the sides of all equations have been unified. -/
theorem exists_of_unifier?_eq_some {ρ : Substitution} (h : unifier? E = some ρ) :
    ∃ s r, (E.map (ofEquations E).sides).foldlM (fun s p => unify p.1 p.2 s) .empty = some s ∧
      s.Triangular ∧ Represents (ofEquations E) s r ∧
      ρ = .ofList ((ofEquations E).names.filterMap fun x =>
        if r x = .var x then none else some (x, r x)) := by
  obtain ⟨s, hs, -⟩ := Option.bind_eq_some_iff.1 ((unifier?_eq E).symm.trans h)
  obtain ⟨htri, r, hr⟩ := exists_represents_of_foldlM (List.Subset.refl _) hs
  exact ⟨s, r, hs, htri, hr, Option.some.inj (h.symm.trans (hr.unifier?_eq_ofList hs))⟩

theorem unifier?_eq_none_iff : unifier? E = none ↔
    (E.map (ofEquations E).sides).foldlM (fun s p => unify p.1 p.2 s) .empty = none := by
  constructor
  · intro h
    cases hfold : (E.map (ofEquations E).sides).foldlM (fun s p => unify p.1 p.2 s) .empty with
    | none => rfl
    | some s =>
      obtain ⟨-, r, hr⟩ := exists_represents_of_foldlM (List.Subset.refl _) hfold
      rw [hr.unifier?_eq_ofList hfold] at h
      cases h
  · intro h
    rw [unifier?_eq, h]
    rfl

/-- Whatever an encoding is used for later, the value of a term is decoded to the term, the term is
encoded to the same value without meeting a new name, and no other term has that value. For every system
of equations, unifying some of the encoded sides in order makes bindings under which every variable
becomes the value of a term; so no unifier is found only if the sides of all equations do not unify. The
unifier that is found gives each variable the term that it becomes, and binds no variable that is left in
these terms. -/
theorem encoding_lossless :
    (∀ (enc enc' : Encoding) (t : Term), Later ((encode t).run enc).2 enc' →
      enc'.decode? ((encode t).run enc).1 = some t ∧
      (encode t).run enc' = (((encode t).run enc).1, enc') ∧
      ∀ u, ((encode u).run enc').1 = ((encode t).run enc).1 → u = t) ∧
    ∀ (E : List Equation) (pairs : List (Value × Value)) (enc : Encoding),
      (E.mapM encodeEquation).run .empty = (pairs, enc) →
      (∀ k s, (pairs.take k).foldlM (fun s p => unify p.1 p.2 s) .empty = some s →
        ∀ e ∈ E, ∀ x ∈ e.vars, ∃ n t, enc.names[n]? = some x ∧
          enc.decode? (s.walkStar (.var n)) = some t) ∧
      (unifier? E = none ↔ pairs.foldlM (fun s p => unify p.1 p.2 s) .empty = none) ∧
      ∀ ρ, unifier? E = some ρ →
        (∀ s, pairs.foldlM (fun s p => unify p.1 p.2 s) .empty = some s → ∀ n x,
          enc.names[n]? = some x → enc.decode? (s.walkStar (.var n)) = some (ρ.image x)) ∧
        ∀ x t, ρ.get? x = some t → ∀ y ∈ t.vars, ρ.get? y = none := by
  refine ⟨fun enc enc' t h => ⟨h.decode?_encode, h.encode_again, fun u => h.eq_of_encode_eq⟩, ?_⟩
  intro E pairs enc hrun
  rw [mapM_encodeEquation, ← ofEquations] at hrun
  obtain ⟨rfl, rfl⟩ := Prod.mk.inj hrun
  refine ⟨fun k s hfold e he x hx => ?_, unifier?_eq_none_iff, fun ρ hρ => ?_⟩
  · obtain ⟨-, r, hr⟩ := exists_represents_of_foldlM (List.take_subset _ _) hfold
    have hmem := mem_ofEquations.2 ⟨e, he, hx⟩
    exact ⟨_, r x, getElem?_index hmem, hr.decode?_eq hmem⟩
  · obtain ⟨s, r, hs, htri, hr, rfl⟩ := exists_of_unifier?_eq_some hρ
    refine ⟨fun s' hs' n x hn => ?_, fun x t hx y hy => ?_⟩
    · obtain rfl := Option.some.inj (hs.symm.trans hs')
      obtain ⟨hlt, rfl⟩ := List.getElem?_eq_some_iff.1 hn
      have hindex : (ofEquations E).index (ofEquations E).names[n] = n :=
        (nodup_ofEquations E).idxOf_getElem n hlt
      have hdecode := hr.decode?_eq (List.getElem_mem hlt)
      rwa [hindex, ← hr.image_eq] at hdecode
    · rw [hr.get?_eq] at hx ⊢
      split_ifs at hx with hself
      obtain rfl := Option.some.inj hx
      have hmem : x ∈ (ofEquations E).names := by
        by_contra hnot
        exact hself (hr.free x hnot)
      rw [if_pos (hr.eq_var_of_mem_vars htri hmem hy)]

end Multiequation.Relational
