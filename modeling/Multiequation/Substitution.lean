import Multiequation.Term

/-!
# Substitutions

A substitution binds finitely many names to terms. Its bindings are kept in the order of the names,
by code point, with one binding for each name.
-/

namespace Multiequation

/-- Names bound to terms, in ascending order of the names. -/
structure Substitution where
  bindings : List (String × Term)
  deriving DecidableEq

namespace Substitution

/-- The substitution that binds nothing. -/
def empty : Substitution := ⟨[]⟩

/-- Puts a binding into an ascending list, in place of an earlier one for the same name. -/
def insertSorted (name : String) (term : Term) : List (String × Term) → List (String × Term)
  | [] => [(name, term)]
  | (other, image) :: rest =>
    if name = other then (name, term) :: rest
    else if name < other then (name, term) :: (other, image) :: rest
    else (other, image) :: insertSorted name term rest

/-- Binds a name, in place of an earlier binding of it. -/
def insert (σ : Substitution) (name : String) (term : Term) : Substitution :=
  ⟨insertSorted name term σ.bindings⟩

/-- Binds the names of a list in order; of two bindings of one name the later stays. -/
def ofList (bindings : List (String × Term)) : Substitution :=
  bindings.foldl (fun σ b => σ.insert b.1 b.2) empty

/-- The term a name is bound to. -/
def get? (σ : Substitution) (name : String) : Option Term :=
  σ.bindings.lookup name

/-- The number of bound names. -/
def size (σ : Substitution) : Nat :=
  σ.bindings.length

/-- Whether no name is bound. -/
def isEmpty (σ : Substitution) : Bool :=
  σ.bindings.isEmpty

/-- What a name stands for: its image if it is bound, else itself. -/
def image (σ : Substitution) (name : String) : Term :=
  (σ.get? name).getD (.var name)

/-- Replaces the bound variables of a term, once. -/
def apply (σ : Substitution) (term : Term) : Term :=
  term.bind σ.image

@[simp] theorem get?_empty (name : String) : empty.get? name = none := rfl

theorem lookup_cons_eq (x name : String) (term : Term) (rest : List (String × Term)) :
    ((name, term) :: rest).lookup x = if x = name then some term else rest.lookup x := by
  by_cases h : x = name
  · simp [h]
  · have hne : (x == name) = false := by simp [h]
    simp [List.lookup_cons, hne, h]

theorem lookup_insertSorted (name x : String) (term : Term) (bindings : List (String × Term)) :
    (insertSorted name term bindings).lookup x =
      if x = name then some term else bindings.lookup x := by
  induction bindings with
  | nil => rw [insertSorted, lookup_cons_eq]
  | cons b rest ih =>
    obtain ⟨other, image⟩ := b
    by_cases h : name = other
    · subst h
      simp only [insertSorted, if_true, lookup_cons_eq]
      split <;> rfl
    · by_cases hlt : name < other
      · rw [insertSorted, if_neg h, if_pos hlt, lookup_cons_eq]
      · rw [insertSorted, if_neg h, if_neg hlt, lookup_cons_eq, ih, lookup_cons_eq]
        by_cases hx : x = other
        · have hne : x ≠ name := fun hxn => h (hxn.symm.trans hx)
          rw [if_pos hx, if_neg hne, if_pos hx]
        · rw [if_neg hx, if_neg hx]

/-- A binding that was put in hides the earlier one for its name and no other. -/
theorem get?_insert (σ : Substitution) (name x : String) (term : Term) :
    (σ.insert name term).get? x = if x = name then some term else σ.get? x :=
  lookup_insertSorted name x term σ.bindings

@[simp] theorem apply_var (σ : Substitution) (name : String) :
    σ.apply (.var name) = σ.image name := by
  simp [apply]

@[simp] theorem apply_app (σ : Substitution) (f : Symbol) (args : List Term) :
    σ.apply (.app f args) = .app f (args.map σ.apply) := by
  simp only [apply, Term.bind_app]
  rfl

/-- One line for each binding. -/
def text (σ : Substitution) : String :=
  String.join (σ.bindings.map fun b => b.1 ++ " ↦ " ++ b.2.text ++ "\n")

end Substitution

end Multiequation
