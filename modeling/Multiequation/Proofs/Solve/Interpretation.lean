import Multiequation.Proofs.Solve.Classification

/-!
# What the occurrences in a system stand for

Take any domain in which the equations hold. Each equation names an object there, and the arguments of
an application are found one by one, so every occurrence of a subterm stands for an object. Equated
occurrences stand for one object, and an occurrence of an argument stands for an argument: what the
classes of equated occurrences say about cycles is true in every domain in which the equations hold.
-/

namespace Multiequation

variable {E : List Equation} {M : Domain} {v : String → M.Object} {a b : Occurrence}

/-! ### The objects of the arguments -/

namespace Domain

open Classical in
/-- The objects to which `f` is applied in `d`, if `d` is an application of `f` to `n` objects. -/
noncomputable def args? (M : Domain) (d : M.Object) (f : Symbol) (n : ℕ) : Option (List M.Object) :=
  if h : ∃ ds, M.IsApp d f ds ∧ ds.length = n then some h.choose else none

theorem args?_eq_some_iff {d : M.Object} {f : Symbol} {n : ℕ} {ds : List M.Object} :
    M.args? d f n = some ds ↔ M.IsApp d f ds ∧ ds.length = n := by
  rw [args?]
  constructor
  · intro h
    split_ifs at h with hex
    · exact Option.some.inj h ▸ hex.choose_spec
  · intro h
    have hex : ∃ ds, M.IsApp d f ds ∧ ds.length = n := ⟨ds, h⟩
    obtain ⟨happ, hlen⟩ := hex.choose_spec
    rw [dif_pos hex, M.args_unique happ h.1 (hlen.trans h.2.symm)]

end Domain

namespace Term

/-- The object that the path leads to from an object that is as the term says. -/
noncomputable def follow (M : Domain) : Term → M.Object → List ℕ → Option M.Object
  | _, d, [] => some d
  | .var _, _, _ :: _ => none
  | .app f ts, d, i :: path =>
    match ts[i]?, (M.args? d f ts.length).bind (·[i]?) with
    | some t, some e => t.follow M e path
    | _, _ => none

@[simp] theorem follow_nil (t : Term) (d : M.Object) : follow M t d [] = some d := by
  rw [follow]

/-- The object that is found along a path is as the subterm says that is found there. -/
theorem exists_follow {t s : Term} {d : M.Object} {path : List ℕ} (h : t.Describes M v d)
    (hpath : t.at? path = some s) : ∃ e, t.follow M d path = some e ∧ s.Describes M v e := by
  induction path generalizing t d with
  | nil =>
    rw [at?_nil] at hpath
    cases hpath
    exact ⟨d, follow_nil _ d, h⟩
  | cons i path ih =>
    cases t with
    | var x => cases hpath
    | app f ts =>
      obtain ⟨ds, happ, hds⟩ := describes_app.1 h
      rw [describeAll_iff] at hds
      have hargs := Domain.args?_eq_some_iff.2 ⟨happ, hds.length_eq.symm⟩
      rw [at?_app_cons] at hpath
      obtain ⟨t, ht, hpath⟩ := Option.bind_eq_some_iff.1 hpath
      obtain ⟨hi, rfl⟩ := List.getElem?_eq_some_iff.1 ht
      have hi' : i < ds.length := hds.length_eq ▸ hi
      obtain ⟨e, he, hs⟩ := ih (hds.get hi hi') hpath
      refine ⟨e, ?_, hs⟩
      simpa [follow, ht, hargs, hi'] using he

/-- One step further. -/
theorem follow_concat {t : Term} {path : List ℕ} {f : Symbol} {ts : List Term}
    (hpath : t.at? path = some (.app f ts)) {i : ℕ} (hi : i < ts.length) (d : M.Object) :
    t.follow M d (path ++ [i]) =
      (t.follow M d path).bind fun e => (M.args? e f ts.length).bind (·[i]?) := by
  induction path generalizing t d with
  | nil =>
    rw [at?_nil] at hpath
    cases hpath
    rw [List.nil_append, follow, follow, Option.bind_some, List.getElem?_eq_getElem hi]
    cases (M.args? d f ts.length).bind (·[i]?) with
    | none => rfl
    | some e => exact follow_nil _ e
  | cons j path ih =>
    cases t with
    | var x => cases hpath
    | app g us =>
      rw [at?_app_cons] at hpath
      obtain ⟨u, hu, hpath⟩ := Option.bind_eq_some_iff.1 hpath
      rw [List.cons_append, follow, follow, hu]
      cases (M.args? d g us.length).bind (·[j]?) with
      | none => rfl
      | some e => exact ih hpath e

end Term

/-! ### The objects of the occurrences -/

open Classical in
/-- An object that both sides of the equation describe, if there is one. -/
noncomputable def Equation.object? (M : Domain) (v : String → M.Object) (e : Equation) :
    Option M.Object :=
  if h : e.Holds M v then some h.choose else none

theorem Equation.exists_object {e : Equation} (h : e.Holds M v) :
    ∃ d, e.object? M v = some d ∧ ∀ right, (e.side right).Describes M v d := by
  refine ⟨h.choose, dif_pos h, fun right => ?_⟩
  cases right with
  | false => exact h.choose_spec.1
  | true => exact h.choose_spec.2

namespace Occurrence

/-- The object that the occurrence stands for. -/
noncomputable def object? (E : List Equation) (M : Domain) (v : String → M.Object)
    (a : Occurrence) : Option M.Object :=
  E[a.equation]?.bind fun e => (e.object? M v).bind fun d => (e.side a.right).follow M d a.path

/-- A subterm describes the object that its occurrence stands for. -/
theorem exists_object (hE : ∀ e ∈ E, e.Holds M v) {t : Term} (h : a.term? E = some t) :
    ∃ d, a.object? E M v = some d ∧ t.Describes M v d := by
  obtain ⟨e, he, hpath⟩ := Option.bind_eq_some_iff.1 h
  obtain ⟨d, hd, hsides⟩ := Equation.exists_object (hE e (List.mem_of_getElem? he))
  obtain ⟨d', hfollow, ht⟩ := Term.exists_follow (hsides a.right) hpath
  exact ⟨d', by simp [object?, he, hd, hfollow], ht⟩

/-- An occurrence of a variable stands for its value. -/
theorem object?_of_var (hE : ∀ e ∈ E, e.Holds M v) {x : String} (h : a.term? E = some (.var x)) :
    a.object? E M v = some (v x) := by
  obtain ⟨d, hd, ht⟩ := exists_object hE h
  rw [hd, Term.describes_var.1 ht]

/-- An occurrence of an argument stands for the argument of what the application stands for. -/
theorem object?_child {f : Symbol} {ts : List Term} (h : a.term? E = some (.app f ts)) {i : ℕ}
    (hi : i < ts.length) : (a.child i).object? E M v =
      (a.object? E M v).bind fun d => (M.args? d f ts.length).bind (·[i]?) := by
  obtain ⟨e, he, hpath⟩ := Option.bind_eq_some_iff.1 h
  simp only [object?, child, he, Option.bind_some, Term.follow_concat hpath hi, Option.bind_assoc]

end Occurrence

/-! ### Equated occurrences and cycles -/

/-- Equated occurrences stand for one object. -/
theorem Equated.object?_eq (hE : ∀ e ∈ E, e.Holds M v) (h : Equated E a b) :
    a.object? E M v = b.object? E M v := by
  induction h with
  | refl => rfl
  | symm _ ih => exact ih.symm
  | trans _ _ ih₁ ih₂ => exact ih₁.trans ih₂
  | sides hi => simp [Occurrence.object?, Occurrence.side, hi]
  | var ha hb => rw [Occurrence.object?_of_var hE ha, Occurrence.object?_of_var hE hb]
  | args _ ha hb hlen hi ih =>
    rw [Occurrence.object?_child ha hi, Occurrence.object?_child hb (hlen ▸ hi), ih, hlen]

/-- An occurrence of an argument stands for an argument. -/
theorem ArgOf.exists_arg (hE : ∀ e ∈ E, e.Holds M v) (h : ArgOf E a b) :
    ∃ d e, a.object? E M v = some d ∧ b.object? E M v = some e ∧ M.Arg d e := by
  obtain ⟨c, f, ts, i, hac, hc, hi, hcb⟩ := h
  obtain ⟨d, hd, ht⟩ := Occurrence.exists_object hE hc
  obtain ⟨ds, happ, hds⟩ := Term.describes_app.1 ht
  have hlen := (Term.describeAll_iff.1 hds).length_eq
  have hargs := Domain.args?_eq_some_iff.2 ⟨happ, hlen.symm⟩
  have hi' : i < ds.length := hlen ▸ hi
  refine ⟨d, ds[i], (hac.object?_eq hE).trans hd, ?_, f, ds, happ, List.getElem_mem hi'⟩
  rw [← hcb.object?_eq hE, Occurrence.object?_child hc hi, hd, Option.bind_some, hargs,
    Option.bind_some, List.getElem?_eq_getElem hi']

/-- What lies below an occurrence stands for what lies below the object. -/
theorem exists_below_of_transGen (hE : ∀ e ∈ E, e.Holds M v)
    (h : Relation.TransGen (ArgOf E) a b) : ∃ d e, a.object? E M v = some d ∧
      b.object? E M v = some e ∧ Relation.TransGen M.Arg d e := by
  induction h with
  | single h =>
    obtain ⟨d, e, hd, he, harg⟩ := h.exists_arg hE
    exact ⟨d, e, hd, he, .single harg⟩
  | tail _ h ih =>
    obtain ⟨d, e, hd, he, hbelow⟩ := ih
    obtain ⟨e', e'', he', he'', harg⟩ := h.exists_arg hE
    obtain rfl := Option.some.inj (he.symm.trans he')
    exact ⟨d, e'', hd, he'', hbelow.tail harg⟩

end Multiequation
