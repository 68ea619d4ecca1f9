import Multiequation.Proofs.Equation.Language

/-!
# Printed equations

What the parser returns has names of the kinds it was read from: a variable is spelled like a variable,
an applied symbol like an atom, a constant like an atom or a numeral. A list of such equations is read
back from its printed texts, whatever blanks stand around the semicolons between them and whether or
not a semicolon stands at the end. For this no two neighbouring pieces of a printed text may be read as
one token: behind a name there is always a blank or a punctuation mark.
-/

namespace Multiequation

open Multiequation.Unicode

/-! ### Readable terms -/

/-- All names of the term are spelled like tokens of the kinds that stand for them. -/
inductive Term.IsReadable : Term → Prop
  | var {x : String} (hx : (Lexeme.mk .variable x).IsSpelled) : IsReadable (.var x)
  | numeral {a : Symbol} (ha : (Lexeme.mk .numeral a.name).IsSpelled) : IsReadable (.const a)
  | atom {a : Symbol} (ha : (Lexeme.mk .atom a.name).IsSpelled) : IsReadable (.const a)
  | application {f : Symbol} {t : Term} {ts : List Term} (hf : (Lexeme.mk .atom f.name).IsSpelled)
      (ht : IsReadable t) (hts : ∀ u ∈ ts, IsReadable u) : IsReadable (.app f (t :: ts))

/-- All names of the equation are spelled like tokens. -/
def Equation.IsReadable (e : Equation) : Prop := e.left.IsReadable ∧ e.right.IsReadable

/-- A derivation with spelled lexemes says a readable term. -/
theorem TermTree.isReadable_of_term? (tree : TermTree) {t : Term} (ht : tree.term? = some t)
    (h : ∀ l ∈ tree.lexemes, l.IsSpelled) : t.IsReadable := by
  induction tree using TermTree.induction generalizing t with
  | var x =>
    obtain rfl := Option.some.inj ((term?_var x).symm.trans ht)
    exact .var (h _ (by simp))
  | numeral n =>
    obtain ⟨a, ha, rfl⟩ := term?_numeral.1 ht
    obtain rfl := Symbol.ofString_eq_ok_iff.1 ha
    exact .numeral (h _ (by simp))
  | atom n =>
    obtain ⟨a, ha, rfl⟩ := term?_atom.1 ht
    obtain rfl := Symbol.ofString_eq_ok_iff.1 ha
    exact .atom (h _ (by simp))
  | application f first rest ihfirst ihrest =>
    obtain ⟨functor, u, us, hf, hu, hus, rfl⟩ := term?_application.1 ht
    obtain rfl := Symbol.ofString_eq_ok_iff.1 hf
    simp only [lexemes_application, List.forall_mem_cons, List.forall_mem_append] at h
    refine .application h.1 (ihfirst hu h.2.2.1) fun t ht => ?_
    obtain ⟨tree, htree, hterm⟩ := exists_mem_of_forall₂ hus.flip ht
    exact ihrest tree htree hterm fun l hl => h.2.2.2 l (mem_restLexemes hl htree)

theorem EquationTree.isReadable_of_equation? {d : EquationTree} {e : Equation}
    (he : d.equation? = some e) (h : ∀ l ∈ d.lexemes, l.IsSpelled) : e.IsReadable := by
  obtain ⟨hleft, hright⟩ := equation?_eq_some_iff.1 he
  simp only [lexemes, List.forall_mem_append, List.forall_mem_cons] at h
  exact ⟨d.left.isReadable_of_term? hleft h.1, d.right.isReadable_of_term? hright h.2.2⟩

theorem SourceTree.isReadable_of_equations? {d : SourceTree} {E : List Equation}
    (hE : d.equations? = some E) (h : ∀ l ∈ d.lexemes, l.IsSpelled) : ∀ e ∈ E, e.IsReadable := by
  cases d with
  | empty =>
    cases hE
    exact List.forall_mem_nil _
  | list first rest trailing =>
    induction rest generalizing first E with
    | nil =>
      obtain ⟨e, es, he, hes, rfl⟩ := equations?_list.1 hE
      cases List.mapM_nil.symm.trans hes
      rw [List.forall_mem_singleton]
      exact EquationTree.isReadable_of_equation? he fun l hl => h l (List.mem_append_left _ hl)
    | cons second rest ih =>
      obtain ⟨e, es, he, hes, rfl⟩ := equations?_list.1 hE
      simp only [lexemes, restLexemes, List.forall_mem_append, List.forall_mem_cons] at h
      rw [List.forall_mem_cons]
      exact ⟨EquationTree.isReadable_of_equation? he h.1,
        ih second hes (List.forall_mem_append.2 h.2.2)⟩

/-- The parser returns readable equations only. -/
theorem Source.isReadable_of_equations {source : Source} {E : List Equation}
    (h : source.equations = .ok E) : ∀ e ∈ E, e.IsReadable := by
  obtain ⟨d, hd, hE⟩ := equations_eq_ok_iff.1 h
  exact SourceTree.isReadable_of_equations? hE hd.isSpelled

/-! ### Printed terms -/

/-- Behind the text of the term its lexemes are read, provided that no name goes on there. -/
def Term.IsPrintedAs (t : Term) (tree : TermTree) : Prop :=
  tree.term? = some t ∧ ∀ {cs : List Char} {ls : List Lexeme}, EndsName cs → Written cs ls →
    Written (t.text.toList ++ cs) (tree.lexemes ++ ls)

theorem Term.endsName_argsText (ts : List Term) (cs : List Char) :
    EndsName ((argsText ts).toList ++ cs) := by
  cases ts with
  | nil =>
    rw [argsText]
    exact endsName_cons (by decide)
  | cons t ts =>
    rw [argsText]
    simp only [String.toList_append, List.append_assoc]
    exact endsName_cons (by decide)

/-- Printed arguments are read up to the closing parenthesis. -/
theorem Term.exists_written_argsText {ts : List Term} (hts : ∀ t ∈ ts, ∃ tree, t.IsPrintedAs tree) :
    ∃ trees, List.Forall₂ (fun tree t => tree.term? = some t) trees ts ∧
      ∀ {cs : List Char} {ls : List Lexeme}, Written cs ls →
        Written ((argsText ts).toList ++ cs) (TermTree.restLexemes trees ++ ls) := by
  induction ts with
  | nil =>
    refine ⟨[], .nil, fun h => ?_⟩
    rw [argsText, TermTree.restLexemes]
    exact .mark (by decide) h
  | cons t ts ih =>
    rw [List.forall_mem_cons] at hts
    obtain ⟨⟨tree, ht, hprinted⟩, hrest⟩ := hts
    obtain ⟨trees, htrees, hargs⟩ := ih hrest
    refine ⟨tree :: trees, .cons ht htrees, fun {cs ls} h => ?_⟩
    rw [argsText, TermTree.restLexemes]
    simp only [String.toList_append, List.append_assoc, List.cons_append]
    refine .mark (by decide) (.space ?_)
    exact hprinted (endsName_argsText ts cs) (hargs h)

/-- A readable term is read back from its text. -/
theorem Term.IsReadable.exists_isPrintedAs {t : Term} (h : t.IsReadable) :
    ∃ tree, t.IsPrintedAs tree := by
  induction h with
  | @var x hx =>
    refine ⟨.var x, TermTree.term?_var x, fun hcs h => ?_⟩
    rw [text]
    exact .name hx hcs h
  | @numeral a ha =>
    refine ⟨.numeral a.name, TermTree.term?_numeral.2 ⟨a, a.ofString_name, rfl⟩, fun hcs h => ?_⟩
    rw [const, text]
    exact .name ha hcs h
  | @atom a ha =>
    refine ⟨.atom a.name, TermTree.term?_atom.2 ⟨a, a.ofString_name, rfl⟩, fun hcs h => ?_⟩
    rw [const, text]
    exact .name ha hcs h
  | @application f t ts hf _ _ iht ihts =>
    obtain ⟨tree, ht, hprinted⟩ := iht
    obtain ⟨trees, htrees, hargs⟩ := exists_written_argsText ihts
    refine ⟨.application f.name tree trees, ?_, fun {cs ls} hcs h => ?_⟩
    · exact TermTree.term?_application.2 ⟨f, t, ts, f.ofString_name, ht, htrees, rfl⟩
    · rw [text, TermTree.lexemes_application]
      simp only [String.toList_append, List.append_assoc, List.cons_append]
      refine .name hf (endsName_cons (by decide)) (.mark (by decide) ?_)
      exact hprinted (endsName_argsText ts cs) (hargs h)

/-- A readable equation is read back from its text. -/
theorem Equation.IsReadable.exists_written {e : Equation} (h : e.IsReadable) :
    ∃ d : EquationTree, d.equation? = some e ∧ ∀ {cs : List Char} {ls : List Lexeme},
      EndsName cs → Written cs ls → Written (e.text.toList ++ cs) (d.lexemes ++ ls) := by
  obtain ⟨left, hleft, hl⟩ := h.1.exists_isPrintedAs
  obtain ⟨right, hright, hr⟩ := h.2.exists_isPrintedAs
  refine ⟨⟨left, right⟩, EquationTree.equation?_eq_some_iff.2 ⟨hleft, hright⟩, fun hcs h => ?_⟩
  simp only [text, EquationTree.lexemes, String.toList_append, List.append_assoc, List.cons_append]
  refine hl (endsName_cons (by decide)) (.space (.mark (by decide) ?_))
  exact .space (hr hcs h)

/-! ### Joined texts -/

/-- The texts of the equations with semicolons between them and blanks around; a semicolon may stand
behind the last one. -/
inductive Joined : List Equation → List Char → Prop
  | nil {bs : List Char} (hbs : ∀ b ∈ bs, isBlank b = true) : Joined [] bs
  | last {e : Equation} {bs bs' : List Char} (hbs : ∀ b ∈ bs, isBlank b = true)
      (hbs' : ∀ b ∈ bs', isBlank b = true) : Joined [e] (bs ++ (e.text.toList ++ bs'))
  | cons {e : Equation} {E : List Equation} {bs bs' cs : List Char}
      (hbs : ∀ b ∈ bs, isBlank b = true) (hbs' : ∀ b ∈ bs', isBlank b = true) (hE : Joined E cs) :
      Joined (e :: E) (bs ++ (e.text.toList ++ (bs' ++ ';' :: cs)))

theorem Written.nil_of_blank {bs : List Char} (hbs : ∀ b ∈ bs, isBlank b = true) : Written bs [] := by
  simpa using Written.blanks _ hbs .nil

/-- Joined texts of readable equations are read back. -/
theorem Joined.exists_written {E : List Equation} {cs : List Char} (h : Joined E cs)
    (hE : ∀ e ∈ E, e.IsReadable) :
    ∃ d : SourceTree, d.equations? = some E ∧ Written cs d.lexemes := by
  induction h with
  | nil hbs => exact ⟨.empty, rfl, .nil_of_blank hbs⟩
  | @last e bs bs' hbs hbs' =>
    obtain ⟨d, hd, hwritten⟩ := (hE e (List.mem_singleton_self e)).exists_written
    refine ⟨.list d [] false, SourceTree.equations?_list.2 ⟨e, [], hd, rfl, rfl⟩,
      Written.blanks _ hbs ?_⟩
    have hends : EndsName bs' := by simpa using endsName_append_of_blank hbs' endsName_nil
    exact hwritten hends (.nil_of_blank hbs')
  | @cons e E bs bs' cs hbs hbs' _ ih =>
    rw [List.forall_mem_cons] at hE
    obtain ⟨d, hd, hwritten⟩ := hE.1.exists_written
    obtain ⟨tail, htail, hcs⟩ := ih hE.2
    have hends : EndsName (bs' ++ ';' :: cs) :=
      endsName_append_of_blank hbs' (endsName_cons (by decide))
    have hmore := hwritten hends (Written.blanks _ hbs' (.mark (by decide) hcs))
    cases tail with
    | empty =>
      cases htail
      exact ⟨.list d [] true, SourceTree.equations?_list.2 ⟨e, [], hd, rfl, rfl⟩,
        Written.blanks _ hbs hmore⟩
    | list second rest trailing =>
      exact ⟨.list d (second :: rest) trailing, SourceTree.equations?_list.2 ⟨e, E, hd, htail, rfl⟩,
        Written.blanks _ hbs hmore⟩

/-- The texts with nothing but semicolons between them are joined. -/
theorem joined_intercalate (E : List Equation) :
    Joined E (";".intercalate (E.map Equation.text)).toList := by
  induction E with
  | nil => exact .nil (List.forall_mem_nil _)
  | cons e E ih =>
    cases E with
    | nil =>
      rw [List.map_singleton, String.intercalate_singleton]
      simpa using Joined.last (e := e) (List.forall_mem_nil _) (List.forall_mem_nil _)
    | cons e' E =>
      rw [List.map_cons, List.map_cons, String.intercalate_cons_cons, ← List.map_cons]
      simpa using Joined.cons (e := e) (List.forall_mem_nil _) (List.forall_mem_nil _) ih

theorem Source.equations_of_written {source : Source} {d : SourceTree} {E : List Equation}
    (hE : d.equations? = some E) (h : Written source.chars d.lexemes) : source.equations = .ok E :=
  equations_eq_ok_iff.2 ⟨d, ⟨(h 0).2, (h 0).1⟩, hE⟩

theorem Joined.equations_eq_ok {E : List Equation} {source : Source} (h : Joined E source.chars)
    (hE : ∀ e ∈ E, e.IsReadable) : source.equations = .ok E := by
  obtain ⟨d, hd, hwritten⟩ := h.exists_written hE
  exact Source.equations_of_written hd hwritten

/-- Printed and joined, whatever equations the parser returns are read back. These are the lists of
equations whose variables are spelled like variables, whose applied symbols are spelled like atoms, and
whose constants are spelled like atoms or numerals. -/
theorem equations_read_back (E : List Equation) :
    (∀ source : Source, source.equations = .ok E →
      ∀ joined : Source, Joined E joined.chars → joined.equations = .ok E) ∧
    ((∀ e ∈ E, e.IsReadable) →
      ∀ joined : Source, Joined E joined.chars → joined.equations = .ok E) ∧
    ((∃ source : Source, source.equations = .ok E) ↔ ∀ e ∈ E, e.IsReadable) := by
  refine ⟨?_, fun hE joined h => h.equations_eq_ok hE, ?_, fun hE => ?_⟩
  · exact fun source hsource joined h => h.equations_eq_ok (Source.isReadable_of_equations hsource)
  · rintro ⟨source, hsource⟩
    exact Source.isReadable_of_equations hsource
  · exact ⟨⟨"", ";".intercalate (E.map Equation.text)⟩, (joined_intercalate E).equations_eq_ok hE⟩

/-- A primed functor, an underscore and a numeral are read back, with blanks and a semicolon at the
end. -/
theorem equations_read_back_of_prime :
    (Source.mk "" " f'(X_1, 42) = _y ;\n").equations =
      .ok [⟨.app ⟨"f'", by decide +kernel⟩ [.var "X_1", .const ⟨"42", by decide +kernel⟩],
        .var "_y"⟩] := by
  refine (equations_read_back _).2.1 (List.forall_mem_singleton.2 ⟨?_, ?_⟩) _ ?_
  · refine .application (by decide +kernel) (.var (by decide +kernel)) ?_
    exact List.forall_mem_singleton.2 (.numeral (by decide +kernel))
  · exact .var (by decide +kernel)
  · have hspace : ∀ b ∈ [' '], isBlank b = true := List.forall_mem_singleton.2 rfl
    have hnewline : ∀ b ∈ ['\n'], isBlank b = true := List.forall_mem_singleton.2 rfl
    exact .cons hspace hspace (.nil hnewline)

end Multiequation
