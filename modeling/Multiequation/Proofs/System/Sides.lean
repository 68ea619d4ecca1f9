import Multiequation.Proofs.Multiterm.Gathering
import Multiequation.Proofs.Solve.Classification

/-!
# The sides of a system

Each equation is laid out in the class of an anchor, which is a variable side if there is one and a
hidden variable of its own otherwise. A side that is a variable is an alias of its anchor; a side that
is an application says what stands at which path of the multiterm of the class. Two sides with one
class disagree if they have applications of different functors or arities at one path.
-/

namespace Multiequation

variable {number : String → Var}

/-! ### Anchors -/

/-- A side of an equation, and the variable in whose class the equation is laid out. -/
structure AnchoredSide where
  anchor : Var
  term : Term

namespace Equation

/-- Neither side is a variable. -/
def isAnchorless : Equation → Bool
  | ⟨.app _ _, .app _ _⟩ => true
  | _ => false

/-- The variable in whose class the equation is laid out: a variable side, the left one if both are
variables, or else the hidden variable `next`. -/
def anchor (number : String → Var) (next : ℕ) : Equation → Var
  | ⟨.var x, _⟩ => number x
  | ⟨.app _ _, .var x⟩ => number x
  | ⟨.app _ _, .app _ _⟩ => ⟨next⟩

/-- The number of the hidden variable that comes after the equation. -/
def nextHidden (next : ℕ) (e : Equation) : ℕ :=
  if e.isAnchorless then next + 1 else next

/-- Both sides with their anchor. -/
def anchoredSides (number : String → Var) (next : ℕ) (e : Equation) : List AnchoredSide :=
  [⟨e.anchor number next, e.left⟩, ⟨e.anchor number next, e.right⟩]

end Equation

/-- The sides of the equations in their order; the hidden variables are numbered from `next` on. -/
def anchoredSides (number : String → Var) : ℕ → List Equation → List AnchoredSide
  | _, [] => []
  | next, e :: E => e.anchoredSides number next ++ anchoredSides number (e.nextHidden next) E

/-- The occurrences of variables strictly inside a term. -/
def Term.innerVars : Term → List String
  | .var _ => []
  | .app _ args => args.flatMap Term.vars

/-- Two terms have applications of different functors or numbers of arguments at one path. -/
def Term.Disagree (s t : Term) : Prop :=
  ∃ path f g ss ts, s.at? path = some (.app f ss) ∧ t.at? path = some (.app g ts) ∧
    (f ≠ g ∨ ss.length ≠ ts.length)

namespace AnchoredSide

/-- The variable `v` is a side with the anchor `u`. -/
def Alias (number : String → Var) (L : List AnchoredSide) (u v : Var) : Prop :=
  ∃ x, ⟨u, .var x⟩ ∈ L ∧ v = number x

/-- The least equivalence in which anchors are equivalent to their aliases. -/
def Aliased (number : String → Var) (L : List AnchoredSide) : Var → Var → Prop :=
  Relation.EqvGen (Alias number L)

/-- Two sides whose anchors are equivalent disagree. -/
def Disagreeing (number : String → Var) (L : List AnchoredSide) : Prop :=
  ∃ s ∈ L, ∃ t ∈ L, Aliased number L s.anchor t.anchor ∧ s.term.Disagree t.term

variable {L L' : List AnchoredSide} {u v : Var}

/-! ### Aliases -/

theorem Aliased.mono (h : Aliased number L u v) (hL : L ⊆ L') : Aliased number L' u v := by
  refine Relation.EqvGen.mono ?_ u v h
  rintro u v ⟨x, hx, hv⟩
  exact ⟨x, hL hx, hv⟩

theorem Disagreeing.mono (h : Disagreeing number L) (hL : L ⊆ L') : Disagreeing number L' := by
  obtain ⟨s, hs, t, ht, hst, hdisagree⟩ := h
  exact ⟨s, hL hs, t, hL ht, hst.mono hL, hdisagree⟩

end AnchoredSide

/-! ### Disagreement -/

/-- The applications of a term are those of its cell. -/
theorem Cell.headAt?_ofTerm {t : Term} {path : List ℕ} {h : Symbol × ℕ} :
    (Cell.ofTerm number t).headAt? path = some h ↔
      ∃ f ts, t.at? path = some (.app f ts) ∧ h = (f, ts.length) := by
  induction path generalizing t with
  | nil =>
    cases t with
    | var x => simp [Cell.ofTerm, Cell.var, Cell.head?]
    | app f args => simp [Cell.ofTerm_app, Cell.nested, Cell.head?, Multiterm.arity, eq_comm]
  | cons i path ih =>
    cases t with
    | var x => simp [Cell.ofTerm, Cell.var, Term.at?]
    | app f args =>
      rw [Cell.ofTerm_app, Cell.nested, Cell.headAt?_app_cons, List.getElem?_map,
        Term.at?_app_cons]
      cases args[i]? with
      | none => simp
      | some t => exact ih

/-- The cells of terms conflict exactly when the terms disagree. -/
theorem Cell.conflict_ofTerm {s t : Term} :
    (Cell.ofTerm number s).Conflict (Cell.ofTerm number t) ↔ s.Disagree t := by
  constructor
  · rintro ⟨path, h, h', hs, ht, hne⟩
    obtain ⟨f, ss, hs', rfl⟩ := Cell.headAt?_ofTerm.1 hs
    obtain ⟨g, ts, ht', rfl⟩ := Cell.headAt?_ofTerm.1 ht
    refine ⟨path, f, g, ss, ts, hs', ht', ?_⟩
    simpa [Prod.ext_iff, imp_iff_not_or] using hne
  · rintro ⟨path, f, g, ss, ts, hs, ht, hne⟩
    refine ⟨path, _, _, Cell.headAt?_ofTerm.2 ⟨f, ss, hs, rfl⟩,
      Cell.headAt?_ofTerm.2 ⟨g, ts, ht, rfl⟩, ?_⟩
    simpa [Prod.ext_iff, imp_iff_not_or] using hne

/-- A term with a multiterm is an application, and its cell holds nothing else. -/
theorem Cell.ofTerm_eq_nested {t : Term} {m : Multiterm}
    (h : (Cell.ofTerm number t).term = some m) : Cell.ofTerm number t = .nested m := by
  cases t with
  | var x => cases h
  | app f args =>
    rw [Cell.ofTerm] at h ⊢
    cases h
    rfl

/-- A term with an application at some path is an application itself. -/
theorem Cell.exists_multiterm {t : Term} {path : List ℕ} {f : Symbol} {ts : List Term}
    (h : t.at? path = some (.app f ts)) (number : String → Var) :
    ∃ m, (Cell.ofTerm number t).term = some m := by
  cases t with
  | var x => cases path <;> cases h
  | app g args => exact ⟨_, rfl⟩

end Multiequation
