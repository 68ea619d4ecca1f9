import Multiequation.Proofs.Lists
import Multiequation.Proofs.Token.Lexemes
import Multiequation.Term

/-!
# The grammar of equations

    file     ::= (equation (';' equation)* ';'?)?
    equation ::= term '=' term
    term     ::= VARIABLE | NUMERAL | ATOM | ATOM '(' term (',' term)* ')'

A derivation is a tree with one constructor for each alternative. Its yield is the list of its lexemes
from left to right, and what it says is a list of equations. Different derivations have different
yields: the grammar is unambiguous.
-/

namespace Multiequation

/-! ### Derivations -/

/-- A derivation of a term. The arguments of an application are the first one and the rest. -/
inductive TermTree
  | var (text : String)
  | numeral (text : String)
  | atom (text : String)
  | application (functor : String) (first : TermTree) (rest : List TermTree)

/-- A derivation of an equation. -/
structure EquationTree where
  left : TermTree
  right : TermTree

/-- A derivation of a file, with or without a semicolon behind the last equation. -/
inductive SourceTree
  | empty
  | list (first : EquationTree) (rest : List EquationTree) (trailing : Bool)

/-! ### Yields -/

mutual

/-- The lexemes of a term. -/
def TermTree.lexemes : TermTree → List Lexeme
  | .var x => [⟨.variable, x⟩]
  | .numeral n => [⟨.numeral, n⟩]
  | .atom a => [⟨.atom, a⟩]
  | .application f first rest => ⟨.atom, f⟩ :: .mark '(' :: (first.lexemes ++ restLexemes rest)

/-- The lexemes behind the first argument, up to the closing parenthesis. -/
def TermTree.restLexemes : List TermTree → List Lexeme
  | [] => [.mark ')']
  | t :: ts => .mark ',' :: (t.lexemes ++ restLexemes ts)

end

/-- The lexemes of an equation. -/
def EquationTree.lexemes (e : EquationTree) : List Lexeme :=
  e.left.lexemes ++ .mark '=' :: e.right.lexemes

/-- The lexemes behind the first equation. -/
def SourceTree.restLexemes (trailing : Bool) : List EquationTree → List Lexeme
  | [] => if trailing then [.mark ';'] else []
  | e :: es => .mark ';' :: (e.lexemes ++ restLexemes trailing es)

/-- The lexemes of a file. -/
def SourceTree.lexemes : SourceTree → List Lexeme
  | .empty => []
  | .list first rest trailing => first.lexemes ++ restLexemes trailing rest

/-! ### What derivations say -/

/-- The symbol with the given name. -/
def Symbol.ofText? (text : String) : Option Symbol := (Symbol.ofString text).toOption

mutual

/-- The term that is derived; an atom or a numeral alone is a constant. -/
def TermTree.term? : TermTree → Option Term
  | .var x => some (.var x)
  | .numeral n => (Symbol.ofText? n).map .const
  | .atom a => (Symbol.ofText? a).map .const
  | .application f first rest =>
    match Symbol.ofText? f, first.term?, terms? rest with
    | some functor, some t, some ts => some (.app functor (t :: ts))
    | _, _, _ => none

/-- The terms that are derived, in order. -/
def TermTree.terms? : List TermTree → Option (List Term)
  | [] => some []
  | tree :: trees =>
    match tree.term?, terms? trees with
    | some t, some ts => some (t :: ts)
    | _, _ => none

end

/-- The equation that is derived. -/
def EquationTree.equation? (e : EquationTree) : Option Equation :=
  match e.left.term?, e.right.term? with
  | some left, some right => some ⟨left, right⟩
  | _, _ => none

/-- The equations that are derived, in order. -/
def SourceTree.equations? : SourceTree → Option (List Equation)
  | .empty => some []
  | .list first rest _ => (first :: rest).mapM EquationTree.equation?

theorem Symbol.ofText?_eq_some_iff {text : String} {a : Symbol} :
    ofText? text = some a ↔ ofString text = .ok a := by
  rw [ofText?]
  cases ofString text <;> simp [Except.toOption]

namespace TermTree

/-- Induction over derivations with the hypothesis for every argument. -/
@[elab_as_elim]
theorem induction {P : TermTree → Prop} (var : ∀ x, P (.var x)) (numeral : ∀ n, P (.numeral n))
    (atom : ∀ a, P (.atom a))
    (application : ∀ f first rest, P first → (∀ t ∈ rest, P t) → P (.application f first rest))
    (t : TermTree) : P t := by
  refine @TermTree.rec P (fun ts => ∀ t ∈ ts, P t) var numeral atom application ?_ ?_ t
  · exact List.forall_mem_nil _
  · exact fun t ts ht hts => List.forall_mem_cons.2 ⟨ht, hts⟩

@[simp] theorem lexemes_var (x : String) : (var x).lexemes = [⟨.variable, x⟩] := by rw [lexemes]

@[simp] theorem lexemes_numeral (n : String) : (numeral n).lexemes = [⟨.numeral, n⟩] := by
  rw [lexemes]

@[simp] theorem lexemes_atom (a : String) : (atom a).lexemes = [⟨.atom, a⟩] := by rw [lexemes]

@[simp] theorem lexemes_application (f : String) (first : TermTree) (rest : List TermTree) :
    (application f first rest).lexemes =
      ⟨.atom, f⟩ :: .mark '(' :: (first.lexemes ++ restLexemes rest) := by
  rw [lexemes]

theorem lexemes_ne_nil (t : TermTree) : t.lexemes ≠ [] := by
  cases t <;> simp

theorem term?_var (x : String) : (var x).term? = some (.var x) := by rw [term?]

theorem term?_numeral {n : String} {t : Term} :
    (numeral n).term? = some t ↔ ∃ a, Symbol.ofString n = .ok a ∧ .const a = t := by
  simp only [term?, Option.map_eq_some_iff, Symbol.ofText?_eq_some_iff]

theorem term?_atom {n : String} {t : Term} :
    (atom n).term? = some t ↔ ∃ a, Symbol.ofString n = .ok a ∧ .const a = t := by
  simp only [term?, Option.map_eq_some_iff, Symbol.ofText?_eq_some_iff]

theorem terms?_eq_some_iff {trees : List TermTree} {ts : List Term} :
    terms? trees = some ts ↔ List.Forall₂ (fun tree t => tree.term? = some t) trees ts := by
  induction trees generalizing ts with
  | nil => cases ts <;> simp [terms?]
  | cons tree trees ih =>
    rw [terms?]
    cases ts with
    | nil => cases tree.term? <;> cases terms? trees <;> simp
    | cons t ts =>
      rw [List.forall₂_cons, ← ih]
      cases tree.term? <;> cases terms? trees <;> simp

theorem term?_application {f : String} {first : TermTree} {rest : List TermTree} {t : Term} :
    (application f first rest).term? = some t ↔ ∃ functor u us, Symbol.ofString f = .ok functor ∧
      first.term? = some u ∧ List.Forall₂ (fun tree t => tree.term? = some t) rest us ∧
        t = .app functor (u :: us) := by
  simp only [← terms?_eq_some_iff, ← Symbol.ofText?_eq_some_iff]
  rw [term?]
  cases Symbol.ofText? f <;> cases first.term? <;> cases terms? rest <;> simp [eq_comm]

end TermTree

theorem EquationTree.equation?_eq_some_iff {d : EquationTree} {e : Equation} :
    d.equation? = some e ↔ d.left.term? = some e.left ∧ d.right.term? = some e.right := by
  obtain ⟨left, right⟩ := e
  rw [equation?]
  cases d.left.term? <;> cases d.right.term? <;> simp

theorem SourceTree.equations?_list {first : EquationTree} {rest : List EquationTree}
    {trailing : Bool} {E : List Equation} : (list first rest trailing).equations? = some E ↔
      ∃ e es, first.equation? = some e ∧ rest.mapM EquationTree.equation? = some es ∧
        E = e :: es := by
  simp only [equations?, List.mapM_cons]
  cases first.equation? <;> cases rest.mapM EquationTree.equation? <;> simp [eq_comm]

/-- Behind the first equation the list ends, or a semicolon stands in front of a shorter list. -/
theorem SourceTree.restLexemes_cases (rest : List EquationTree) (trailing : Bool) :
    (rest = [] ∧ restLexemes trailing rest = []) ∨
      ∃ d : SourceTree, restLexemes trailing rest = .mark ';' :: d.lexemes ∧
        d.equations? = rest.mapM EquationTree.equation? := by
  cases rest with
  | cons e es => exact .inr ⟨.list e es trailing, rfl, rfl⟩
  | nil =>
    cases trailing with
    | false => exact .inl ⟨rfl, rfl⟩
    | true => exact .inr ⟨.empty, rfl, rfl⟩

/-! ### Spelled derivations -/

theorem TermTree.mem_restLexemes {t : TermTree} {l : Lexeme} (hl : l ∈ t.lexemes)
    {rest : List TermTree} (ht : t ∈ rest) : l ∈ restLexemes rest := by
  induction rest with
  | nil => cases ht
  | cons u us ih =>
    rw [restLexemes, List.mem_cons, List.mem_append]
    obtain rfl | ht := List.mem_cons.1 ht
    · exact .inr (.inl hl)
    · exact .inr (.inr (ih ht))

/-- A derivation whose names are spelled says a term. -/
theorem TermTree.exists_term?_eq (t : TermTree) (h : ∀ l ∈ t.lexemes, l.IsSpelled) :
    ∃ u, t.term? = some u := by
  induction t using TermTree.induction with
  | var x => exact ⟨.var x, term?_var x⟩
  | numeral n =>
    obtain ⟨symbol, hsymbol⟩ := (h ⟨.numeral, n⟩ (by simp)).exists_symbol (.inr rfl)
    exact ⟨.const symbol, term?_numeral.2 ⟨symbol, hsymbol, rfl⟩⟩
  | atom a =>
    obtain ⟨symbol, hsymbol⟩ := (h ⟨.atom, a⟩ (by simp)).exists_symbol (.inl rfl)
    exact ⟨.const symbol, term?_atom.2 ⟨symbol, hsymbol, rfl⟩⟩
  | application f first rest ihfirst ihrest =>
    simp only [lexemes_application, List.forall_mem_cons, List.forall_mem_append] at h
    obtain ⟨hf, -, hfirst, hrest⟩ := h
    obtain ⟨symbol, hsymbol⟩ := hf.exists_symbol (.inl rfl)
    obtain ⟨u, hu⟩ := ihfirst hfirst
    obtain ⟨us, hus⟩ := exists_forall₂ fun t ht =>
      ihrest t ht fun l hl => hrest l (mem_restLexemes hl ht)
    exact ⟨_, term?_application.2 ⟨symbol, u, us, hsymbol, hu, hus, rfl⟩⟩

theorem EquationTree.exists_equation?_eq (d : EquationTree) (h : ∀ l ∈ d.lexemes, l.IsSpelled) :
    ∃ e, d.equation? = some e := by
  simp only [lexemes, List.forall_mem_append, List.forall_mem_cons] at h
  obtain ⟨left, hleft⟩ := d.left.exists_term?_eq h.1
  obtain ⟨right, hright⟩ := d.right.exists_term?_eq h.2.2
  exact ⟨⟨left, right⟩, equation?_eq_some_iff.2 ⟨hleft, hright⟩⟩

/-- A derivation whose names are spelled says a list of equations. -/
theorem SourceTree.exists_equations?_eq (d : SourceTree) (h : ∀ l ∈ d.lexemes, l.IsSpelled) :
    ∃ E, d.equations? = some E := by
  cases d with
  | empty => exact ⟨[], rfl⟩
  | list first rest trailing =>
    induction rest generalizing first with
    | nil =>
      obtain ⟨e, he⟩ := first.exists_equation?_eq fun l hl => h l (List.mem_append_left _ hl)
      exact ⟨_, equations?_list.2 ⟨e, [], he, rfl, rfl⟩⟩
    | cons second rest ih =>
      simp only [lexemes, restLexemes, List.forall_mem_append, List.forall_mem_cons] at h
      obtain ⟨e, he⟩ := first.exists_equation?_eq h.1
      obtain ⟨es, hes⟩ := ih second (List.forall_mem_append.2 h.2.2)
      exact ⟨_, equations?_list.2 ⟨e, es, he, hes, rfl⟩⟩

/-! ### Unambiguity -/

/-- What comes next tells that a term has ended. -/
def EndsTerm (ls : List Lexeme) : Prop := ls.head? ≠ some (.mark '(')

theorem endsTerm_nil : EndsTerm [] := by simp [EndsTerm]

theorem endsTerm_mark {c : Char} {ls : List Lexeme} (hc : c ≠ '(') : EndsTerm (.mark c :: ls) := by
  intro h
  simp only [List.head?_cons, Option.some.injEq, Lexeme.mark_inj] at h
  exact hc h

namespace TermTree

/-- In front of whatever ends a term, the lexemes of the tree are those of no other tree. -/
def IsTold (t : TermTree) : Prop :=
  ∀ (t' : TermTree) (ls ls' : List Lexeme), EndsTerm ls → EndsTerm ls' →
    t.lexemes ++ ls = t'.lexemes ++ ls' → t = t' ∧ ls = ls'

theorem endsTerm_restLexemes (rest : List TermTree) (ls : List Lexeme) :
    EndsTerm (restLexemes rest ++ ls) := by
  cases rest with
  | nil => exact endsTerm_mark (by decide)
  | cons t ts => exact endsTerm_mark (by decide)

theorem eq_of_restLexemes_append {rest : List TermTree} (hrest : ∀ t ∈ rest, t.IsTold)
    (rest' : List TermTree) {ls ls' : List Lexeme}
    (h : restLexemes rest ++ ls = restLexemes rest' ++ ls') : rest = rest' ∧ ls = ls' := by
  induction rest generalizing rest' with
  | nil =>
    cases rest' with
    | nil => simpa [restLexemes] using h
    | cons u us => simp [restLexemes, Lexeme.mark] at h
  | cons t ts ih =>
    rw [List.forall_mem_cons] at hrest
    cases rest' with
    | nil => simp [restLexemes, Lexeme.mark] at h
    | cons u us =>
      simp only [restLexemes, List.cons_append, List.append_assoc, List.cons.injEq, true_and] at h
      obtain ⟨rfl, htail⟩ :=
        hrest.1 u _ _ (endsTerm_restLexemes ts ls) (endsTerm_restLexemes us ls') h
      obtain ⟨rfl, hls⟩ := ih hrest.2 us htail
      exact ⟨rfl, hls⟩

theorem isTold (t : TermTree) : t.IsTold := by
  induction t using TermTree.induction with
  | var x => intro t' ls ls' _ _ h; cases t' <;> simp_all
  | numeral n => intro t' ls ls' _ _ h; cases t' <;> simp_all
  | atom a =>
    intro t' ls ls' hls _ h
    cases t' with
    | application f first rest =>
      simp only [lexemes_atom, lexemes_application, List.cons_append, List.nil_append,
        List.cons.injEq] at h
      exact absurd (h.2 ▸ rfl) hls
    | _ => simp_all
  | application f first rest ihfirst ihrest =>
    intro t' ls ls' _ hls' h
    cases t' with
    | atom a =>
      simp only [lexemes_atom, lexemes_application, List.cons_append, List.nil_append,
        List.cons.injEq] at h
      exact absurd (h.2 ▸ rfl) hls'
    | application f' first' rest' =>
      simp only [lexemes_application, List.cons_append, List.append_assoc, List.cons.injEq,
        Lexeme.mk.injEq, true_and] at h
      obtain ⟨rfl, hargs⟩ := h
      obtain ⟨rfl, htail⟩ :=
        ihfirst first' _ _ (endsTerm_restLexemes rest ls) (endsTerm_restLexemes rest' ls') hargs
      obtain ⟨rfl, rfl⟩ := eq_of_restLexemes_append ihrest rest' htail
      exact ⟨rfl, rfl⟩
    | _ => simp_all

end TermTree

theorem EquationTree.lexemes_ne_nil (e : EquationTree) : e.lexemes ≠ [] := by
  simp [lexemes]

theorem EquationTree.eq_of_lexemes_append {e e' : EquationTree} {ls ls' : List Lexeme}
    (hls : EndsTerm ls) (hls' : EndsTerm ls') (h : e.lexemes ++ ls = e'.lexemes ++ ls') :
    e = e' ∧ ls = ls' := by
  obtain ⟨l, r⟩ := e
  obtain ⟨l', r'⟩ := e'
  simp only [lexemes, List.append_assoc, List.cons_append] at h
  obtain ⟨rfl, hright⟩ :=
    l.isTold l' _ _ (endsTerm_mark (by decide)) (endsTerm_mark (by decide)) h
  obtain ⟨rfl, rfl⟩ := r.isTold r' _ _ hls hls' (List.cons.inj hright).2
  exact ⟨rfl, rfl⟩

namespace SourceTree

theorem endsTerm_restLexemes (trailing : Bool) (rest : List EquationTree) :
    EndsTerm (restLexemes trailing rest) := by
  cases rest with
  | nil =>
    cases trailing with
    | false => exact endsTerm_nil
    | true => exact endsTerm_mark (by decide)
  | cons e es => exact endsTerm_mark (by decide)

theorem eq_of_restLexemes_eq {trailing trailing' : Bool} {rest rest' : List EquationTree}
    (h : restLexemes trailing rest = restLexemes trailing' rest') :
    rest = rest' ∧ trailing = trailing' := by
  induction rest generalizing rest' with
  | nil =>
    cases rest' with
    | nil => cases trailing <;> cases trailing' <;> simp_all [restLexemes]
    | cons e es => cases trailing <;> simp [restLexemes, e.lexemes_ne_nil] at h
  | cons e es ih =>
    cases rest' with
    | nil => cases trailing' <;> simp [restLexemes, e.lexemes_ne_nil] at h
    | cons e' es' =>
      simp only [restLexemes, List.cons.injEq, true_and] at h
      obtain ⟨rfl, htail⟩ := EquationTree.eq_of_lexemes_append (endsTerm_restLexemes trailing es)
        (endsTerm_restLexemes trailing' es') h
      obtain ⟨rfl, rfl⟩ := ih htail
      exact ⟨rfl, rfl⟩

/-- No two derivations have the same lexemes. -/
theorem lexemes_injective : Function.Injective lexemes := by
  intro d d' h
  cases d with
  | empty =>
    cases d' with
    | empty => rfl
    | list e es trailing => simp [lexemes, e.lexemes_ne_nil] at h
  | list e es trailing =>
    cases d' with
    | empty => simp [lexemes, e.lexemes_ne_nil] at h
    | list e' es' trailing' =>
      simp only [lexemes] at h
      obtain ⟨rfl, htail⟩ := EquationTree.eq_of_lexemes_append (endsTerm_restLexemes trailing es)
        (endsTerm_restLexemes trailing' es') h
      obtain ⟨rfl, rfl⟩ := eq_of_restLexemes_eq htail
      rfl

end SourceTree

end Multiequation
