import Multiequation.Proofs.Solve.Outcome

/-!
# What the errors of solving mean

The subterm occurrences of a system are equated when the equations, the variables and the arguments of
equal applications force them to be. Two equated applications may then clash, and an occurrence may
come to lie below itself. The classes of equated occurrences are a domain in which the equations hold;
so a reported clash is one of these clashes, and a failed occurs check is one of these cycles. A
system that is solved has neither of them.
-/

namespace Multiequation

/-- A place in a system: the number of an equation, one of its sides, and the positions of the
arguments on the way from there. -/
structure Occurrence where
  equation : ℕ
  right : Bool
  path : List ℕ
  deriving DecidableEq

/-- The subterm that the path leads to. -/
def Term.at? : Term → List ℕ → Option Term
  | t, [] => some t
  | .var _, _ :: _ => none
  | .app _ args, i :: path =>
    match args[i]? with
    | none => none
    | some t => t.at? path

/-- One of the two sides. -/
def Equation.side (e : Equation) (right : Bool) : Term :=
  if right then e.right else e.left

namespace Occurrence

/-- The side of an equation. -/
def side (i : ℕ) (right : Bool) : Occurrence := ⟨i, right, []⟩

/-- The occurrence of an argument. -/
def child (o : Occurrence) (i : ℕ) : Occurrence := { o with path := o.path ++ [i] }

/-- The subterm that occurs at a place, if the place is one of the system. -/
def term? (E : List Equation) (o : Occurrence) : Option Term :=
  E[o.equation]?.bind fun e => (e.side o.right).at? o.path

end Occurrence

/-- The least equivalence that equates the two sides of each equation, all occurrences of one
variable, and corresponding arguments of equated applications of one symbol to one number of
arguments. -/
inductive Equated (E : List Equation) : Occurrence → Occurrence → Prop
  | refl (a : Occurrence) : Equated E a a
  | symm {a b : Occurrence} : Equated E a b → Equated E b a
  | trans {a b c : Occurrence} : Equated E a b → Equated E b c → Equated E a c
  | sides {i : ℕ} : i < E.length → Equated E (.side i false) (.side i true)
  | var {a b : Occurrence} {x : String} : a.term? E = some (.var x) → b.term? E = some (.var x) →
      Equated E a b
  | args {a b : Occurrence} {f : Symbol} {ss ts : List Term} {i : ℕ} : Equated E a b →
      a.term? E = some (.app f ss) → b.term? E = some (.app f ts) → ss.length = ts.length →
      i < ss.length → Equated E (a.child i) (b.child i)

/-- Two equated applications differ in the symbol or in the number of arguments. -/
def ForcesClash (E : List Equation) : Prop :=
  ∃ a b f g ss ts, Equated E a b ∧ a.term? E = some (.app f ss) ∧ b.term? E = some (.app g ts) ∧
    (f ≠ g ∨ ss.length ≠ ts.length)

/-- The occurrence `b` is equated to an argument of an application that `a` is equated to. -/
def ArgOf (E : List Equation) (a b : Occurrence) : Prop :=
  ∃ c f ts i, Equated E a c ∧ c.term? E = some (.app f ts) ∧ i < ts.length ∧
    Equated E (c.child i) b

/-- An occurrence lies below itself. -/
def ForcesCycle (E : List Equation) : Prop :=
  ∃ a, Relation.TransGen (ArgOf E) a a

variable {E : List Equation}

/-! ### Occurrences -/

@[simp] theorem Term.at?_nil (t : Term) : t.at? [] = some t := by
  rw [Term.at?]

theorem Term.at?_app_cons (f : Symbol) (args : List Term) (i : ℕ) (path : List ℕ) :
    (app f args).at? (i :: path) = args[i]?.bind fun t => t.at? path := by
  rw [Term.at?]
  cases args[i]? <;> rfl

theorem Term.at?_append (t : Term) (p q : List ℕ) :
    t.at? (p ++ q) = (t.at? p).bind fun s => s.at? q := by
  induction p generalizing t with
  | nil => simp
  | cons i p ih =>
    cases t with
    | var x => rfl
    | app f args =>
      rw [List.cons_append, Term.at?_app_cons, Term.at?_app_cons, Option.bind_assoc]
      exact congrArg _ (funext ih)

namespace Occurrence

theorem term?_side {i : ℕ} (hi : i < E.length) (right : Bool) :
    (side i right).term? E = some (E[i].side right) := by
  simp [term?, side, hi]

/-- The arguments of an application occur at the children of its place. -/
theorem term?_child {o : Occurrence} {f : Symbol} {ts : List Term} (h : o.term? E = some (.app f ts))
    (i : ℕ) : (o.child i).term? E = ts[i]? := by
  obtain ⟨e, he, ho⟩ := Option.bind_eq_some_iff.1 h
  simp [term?, child, he, Term.at?_append, ho, Term.at?_app_cons]

end Occurrence

/-! ### The domain of the classes of equated occurrences -/

/-- Being equated, as an equivalence. -/
def equatedSetoid (E : List Equation) : Setoid Occurrence :=
  ⟨Equated E, .refl, .symm, .trans⟩

/-- The class of an occurrence. -/
def classOf (E : List Equation) (a : Occurrence) : Quotient (equatedSetoid E) :=
  Quotient.mk _ a

theorem classOf_eq_iff {a b : Occurrence} : classOf E a = classOf E b ↔ Equated E a b :=
  ⟨Quotient.exact (s := equatedSetoid E), Quotient.sound (s := equatedSetoid E)⟩

/-- The classes of the arguments of an application that occurs at `a`. -/
def childClasses (E : List Equation) (a : Occurrence) (ts : List Term) :
    List (Quotient (equatedSetoid E)) :=
  (List.range ts.length).map fun i => classOf E (a.child i)

/-- The domain of the classes. A class is what the applications in it are. -/
abbrev occurrenceDomain (E : List Equation) : Domain where
  Object := Quotient (equatedSetoid E)
  IsApp d f ds := ∃ a ts, classOf E a = d ∧ a.term? E = some (.app f ts) ∧
    childClasses E a ts = ds
  args_unique := by
    rintro d f ds es ⟨a, ss, rfl, ha, rfl⟩ ⟨b, ts, hb, hbt, rfl⟩ hlen
    have hlen : ss.length = ts.length := by simpa [childClasses] using hlen
    rw [childClasses, childClasses, ← hlen]
    refine List.map_congr_left fun i hi => classOf_eq_iff.2 ?_
    exact .args (classOf_eq_iff.1 hb.symm) ha hbt hlen (List.mem_range.1 hi)

open Classical in
/-- Each variable stands for the class of its occurrences. -/
noncomputable def occurrenceValue (E : List Equation) (x : String) : (occurrenceDomain E).Object :=
  if h : ∃ a : Occurrence, a.term? E = some (.var x) then classOf E h.choose
  else classOf E (.side 0 false)

theorem occurrenceValue_eq {a : Occurrence} {x : String} (h : a.term? E = some (.var x)) :
    occurrenceValue E x = classOf E a := by
  have hex : ∃ a : Occurrence, a.term? E = some (.var x) := ⟨a, h⟩
  rw [occurrenceValue, dif_pos hex]
  exact classOf_eq_iff.2 (.var hex.choose_spec h)

/-- A term describes the class of each of its occurrences. -/
theorem describes_classOf {t : Term} {a : Occurrence} (h : a.term? E = some t) :
    t.Describes (occurrenceDomain E) (occurrenceValue E) (classOf E a) := by
  induction t using Term.induction generalizing a with
  | var x => exact Term.describes_var.2 (occurrenceValue_eq h)
  | app f args ih =>
    refine Term.describes_app.2 ⟨childClasses E a args, ⟨a, args, rfl, h, rfl⟩, ?_⟩
    rw [Term.describeAll_iff, List.forall₂_iff_get]
    refine ⟨by simp [childClasses], fun i hi _ => ?_⟩
    have hchild : (a.child i).term? E = some args[i] := by
      rw [Occurrence.term?_child h, List.getElem?_eq_getElem hi]
    have := ih args[i] (List.getElem_mem hi) hchild
    simpa [childClasses] using this

/-- The equations hold among the classes. -/
theorem holds_occurrenceDomain (E : List Equation) :
    ∀ e ∈ E, e.Holds (occurrenceDomain E) (occurrenceValue E) := by
  intro e he
  obtain ⟨i, hi, rfl⟩ := List.getElem_of_mem he
  refine ⟨classOf E (.side i false), describes_classOf (Occurrence.term?_side hi false), ?_⟩
  rw [classOf_eq_iff.2 (.sides hi)]
  exact describes_classOf (Occurrence.term?_side hi true)

theorem forcesClash_of_hasClash (h : (occurrenceDomain E).HasClash) : ForcesClash E := by
  obtain ⟨d, f, g, _, _, ⟨a, ss, rfl, ha, rfl⟩, ⟨b, ts, hb, hbt, rfl⟩, hne⟩ := h
  refine ⟨a, b, f, g, ss, ts, classOf_eq_iff.1 hb.symm, ha, hbt, hne.imp_right ?_⟩
  simp [childClasses]

theorem argOf_of_arg {a b : Occurrence}
    (h : (occurrenceDomain E).Arg (classOf E a) (classOf E b)) : ArgOf E a b := by
  obtain ⟨f, _, ⟨c, ts, hc, hct, rfl⟩, hmem⟩ := h
  obtain ⟨i, hi, hb⟩ := List.mem_map.1 hmem
  exact ⟨c, f, ts, i, classOf_eq_iff.1 hc.symm, hct, List.mem_range.1 hi, classOf_eq_iff.1 hb⟩

/-- What lies below a class lies below the occurrences in it. -/
theorem transGen_argOf_of_below {a b : Occurrence}
    (h : Relation.TransGen (occurrenceDomain E).Arg (classOf E a) (classOf E b)) :
    Relation.TransGen (ArgOf E) a b := by
  generalize hd' : classOf E b = d' at h
  induction h generalizing b with
  | single h =>
    subst hd'
    exact .single (argOf_of_arg h)
  | @tail d' _ _ h ih =>
    subst hd'
    obtain ⟨c, rfl⟩ := Quotient.exists_rep d'
    exact (ih rfl).tail (argOf_of_arg h)

theorem forcesCycle_of_hasCycle (h : (occurrenceDomain E).HasCycle) : ForcesCycle E := by
  obtain ⟨d, hd⟩ := h
  obtain ⟨a, rfl⟩ := Quotient.exists_rep d
  exact ⟨a, transGen_argOf_of_below hd⟩

/-! ### Systems that have a unifier -/

/-- A unifier makes equated subterms equal. -/
theorem Equated.bind_eq {θ : String → Term} (hθ : Unifies θ E) {a b : Occurrence}
    (h : Equated E a b) : (a.term? E).map (Term.bind θ) = (b.term? E).map (Term.bind θ) := by
  induction h with
  | refl => rfl
  | symm _ ih => exact ih.symm
  | trans _ _ ih₁ ih₂ => exact ih₁.trans ih₂
  | sides hi =>
    rw [Occurrence.term?_side hi, Occurrence.term?_side hi]
    exact congrArg some (hθ _ (List.getElem_mem hi))
  | var ha hb => rw [ha, hb]
  | @args a b f ss ts i _ ha hb _ _ ih =>
    rw [ha, hb, Option.map_some, Option.map_some, Term.bind_app, Term.bind_app] at ih
    obtain ⟨-, hargs⟩ := Term.app.inj (Option.some.inj ih)
    rw [Occurrence.term?_child ha, Occurrence.term?_child hb, ← List.getElem?_map,
      ← List.getElem?_map, hargs]

theorem not_forcesClash {θ : String → Term} (hθ : Unifies θ E) : ¬ ForcesClash E := by
  rintro ⟨a, b, f, g, ss, ts, hab, ha, hb, hne⟩
  have heq := hab.bind_eq hθ
  rw [ha, hb, Option.map_some, Option.map_some, Term.bind_app, Term.bind_app] at heq
  obtain ⟨hfg, hargs⟩ := Term.app.inj (Option.some.inj heq)
  have hlen := congrArg List.length hargs
  rw [List.length_map, List.length_map] at hlen
  exact hne.elim (fun h => h hfg) fun h => h hlen

/-- Arguments become smaller terms, so no occurrence lies below itself. -/
theorem not_forcesCycle {θ : String → Term} (hθ : Unifies θ E) : ¬ ForcesCycle E := by
  let size := fun a : Occurrence => (((a.term? E).map (Term.bind θ)).map Term.size).getD 0
  have hstep : ∀ {a b}, ArgOf E a b → size b < size a := by
    rintro a b ⟨c, f, ts, i, hac, hc, hi, hcb⟩
    have hchild : ((c.child i).term? E).map (Term.bind θ) = some (ts[i].bind θ) := by
      rw [Occurrence.term?_child hc, List.getElem?_eq_getElem hi, Option.map_some]
    have hlt := Term.size_lt_of_mem f (List.mem_map_of_mem (f := Term.bind θ) (List.getElem_mem hi))
    simp only [size, hac.bind_eq hθ, ← hcb.bind_eq hθ, hchild, hc, Option.map_some, Option.getD_some,
      Term.bind_app]
    exact hlt
  rintro ⟨a, ha⟩
  have hlt : ∀ {b}, Relation.TransGen (ArgOf E) a b → size b < size a := by
    intro b hb
    induction hb with
    | single h => exact hstep h
    | tail _ h ih => exact (hstep h).trans ih
  exact (hlt ha).false

/-! ### The errors -/

/-- A failure of the engine is a clash between equated subterms, a failed occurs check is a cycle of
equated subterms, and a system that is solved forces neither. -/
theorem solve_error_exact (E : List Equation) :
    (∀ e, solve E = .error (.failure e) → e.kind = .unification ∧ ForcesClash E) ∧
    (∀ vs, solve E = .error (.occurs vs) → ForcesCycle E) ∧
    ∀ s, solve E = .ok s → ¬ ForcesClash E ∧ ¬ ForcesCycle E := by
  have hholds := holds_occurrenceDomain E
  obtain ⟨s, hs, hsolves⟩ | ⟨e, he, c, rfl, hclash⟩ | ⟨vs, hvs, hcycle⟩ := solve_cases E
  · rw [hs]
    refine ⟨nofun, nofun, fun _ _ => ?_⟩
    have hunifies : Unifies s.substitution.image E := hsolves.mostGeneral.unifies
    exact ⟨not_forcesClash hunifies, not_forcesCycle hunifies⟩
  · rw [he]
    refine ⟨?_, nofun, nofun⟩
    rintro _ ⟨⟩
    exact ⟨rfl, forcesClash_of_hasClash (hclash _ _ hholds)⟩
  · rw [hvs]
    exact ⟨nofun, fun _ _ => forcesCycle_of_hasCycle (hcycle _ _ hholds), nofun⟩

end Multiequation
