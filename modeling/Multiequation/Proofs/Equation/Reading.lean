import Multiequation.Equation.Parser
import Multiequation.Proofs.Equation.Grammar

/-!
# Reading derived tokens

A term that is read inside open applications is a derived one at the front of the tokens, and reading
goes on behind it; conversely a derived term is read whole, provided that no parenthesis opens behind
it. So the parser takes a list of tokens exactly when a derivation has it and nothing stopped the
lexer, and its result is what the derivation says.
-/

namespace Multiequation

namespace Parser

/-! ### Derived tokens -/

/-- A derivation of the term `t` takes the tokens up to `rest`. -/
def Reads (tokens : List Token) (t : Term) (rest : List Token) : Prop :=
  ∃ (tree : TermTree) (used : List Token), tree.term? = some t ∧
    used.map Token.lexeme = tree.lexemes ∧ tokens = used ++ rest

/-- Derivations of the arguments `ts` behind a first one take the tokens up to `rest`, the closing
parenthesis included. -/
def ReadsRest (tokens : List Token) (ts : List Term) (rest : List Token) : Prop :=
  ∃ (trees : List TermTree) (used : List Token),
    List.Forall₂ (fun tree t => tree.term? = some t) trees ts ∧
      used.map Token.lexeme = TermTree.restLexemes trees ∧ tokens = used ++ rest

variable {token mark : Token} {tokens rest rest' : List Token} {t : Term} {ts : List Term}
  {symbol : Symbol} {fault : Option LexError}

theorem lexeme_eq_of_kind {kind : TokenKind} (h : token.kind = kind) :
    token.lexeme = ⟨kind, token.text⟩ := by
  rw [Token.lexeme, h]

theorem Reads.length_lt (h : Reads tokens t rest) : rest.length < tokens.length := by
  obtain ⟨tree, used, -, hused, rfl⟩ := h
  have hne : used ≠ [] := by
    rintro rfl
    exact tree.lexemes_ne_nil hused.symm
  have := List.length_pos_iff.2 hne
  rw [List.length_append]
  omega

theorem Reads.var (h : token.kind = .variable) :
    Reads (token :: rest) (.var token.text) rest := by
  refine ⟨.var token.text, [token], TermTree.term?_var _, ?_, rfl⟩
  simp [lexeme_eq_of_kind h]

theorem Reads.numeral (h : token.kind = .numeral)
    (hsymbol : Symbol.ofString token.text = .ok symbol) :
    Reads (token :: rest) (.const symbol) rest := by
  refine ⟨.numeral token.text, [token], TermTree.term?_numeral.2 ⟨symbol, hsymbol, rfl⟩, ?_, rfl⟩
  simp [lexeme_eq_of_kind h]

theorem Reads.atom (h : token.kind = .atom) (hsymbol : Symbol.ofString token.text = .ok symbol) :
    Reads (token :: rest) (.const symbol) rest := by
  refine ⟨.atom token.text, [token], TermTree.term?_atom.2 ⟨symbol, hsymbol, rfl⟩, ?_, rfl⟩
  simp [lexeme_eq_of_kind h]

theorem Reads.application (h : token.kind = .atom)
    (hsymbol : Symbol.ofString token.text = .ok symbol) (hopen : mark.isMark '(' = true)
    (hfirst : Reads tokens t rest) (hrest : ReadsRest rest ts rest') :
    Reads (token :: mark :: tokens) (.app symbol (t :: ts)) rest' := by
  obtain ⟨tree, used, htree, hused, rfl⟩ := hfirst
  obtain ⟨trees, used', htrees, hused', rfl⟩ := hrest
  refine ⟨.application token.text tree trees, token :: mark :: (used ++ used'), ?_, ?_, by simp⟩
  · exact TermTree.term?_application.2 ⟨symbol, t, ts, hsymbol, htree, htrees, rfl⟩
  · simp [lexeme_eq_of_kind h, Token.isMark_iff.1 hopen, hused, hused']

theorem ReadsRest.close (h : mark.isMark ')' = true) : ReadsRest (mark :: rest) [] rest := by
  refine ⟨[], [mark], .nil, ?_, rfl⟩
  simp [TermTree.restLexemes, Token.isMark_iff.1 h]

theorem ReadsRest.next (h : mark.isMark ',' = true) (hfirst : Reads tokens t rest)
    (hrest : ReadsRest rest ts rest') : ReadsRest (mark :: tokens) (t :: ts) rest' := by
  obtain ⟨tree, used, htree, hused, rfl⟩ := hfirst
  obtain ⟨trees, used', htrees, hused', rfl⟩ := hrest
  refine ⟨tree :: trees, mark :: (used ++ used'), .cons htree htrees, ?_, by simp⟩
  simp [TermTree.restLexemes, Token.isMark_iff.1 h, hused, hused']

/-! ### What is read is derived -/

variable {stack : List Frame} {u : Term} {stream : TokenStream}

/-- An atom is a constant, or it opens an application. -/
theorem readTerm_of_atom (fault : Option LexError) (stack : List Frame) (tokens : List Token)
    (h : token.kind = .atom) (hsymbol : Symbol.ofString token.text = .ok symbol) :
    (readTerm fault stack (token :: tokens) = resume fault (.const symbol) stack tokens ∧
      EndsTerm (tokens.map Token.lexeme)) ∨
    ∃ mark args, tokens = mark :: args ∧ mark.isMark '(' = true ∧
      readTerm fault stack (token :: tokens) = readTerm fault (⟨symbol, []⟩ :: stack) args := by
  rw [readTerm]
  simp only [h, hsymbol]
  cases tokens with
  | nil => exact .inl ⟨rfl, endsTerm_nil⟩
  | cons mark args =>
    dsimp only
    split
    · next hopen => exact .inr ⟨mark, args, rfl, hopen, rfl⟩
    · next hopen =>
      refine .inl ⟨rfl, fun h => hopen (Token.isMark_iff.2 (Option.some.inj h))⟩

mutual

/-- A term that is read is derived, and reading goes on behind it. -/
theorem exists_reads_of_readTerm {stack : List Frame} {tokens : List Token}
    (h : readTerm fault stack tokens = .ok u stream) :
    ∃ t rest, Reads tokens t rest ∧ resume fault t stack rest = .ok u stream := by
  match tokens with
  | [] => simp [readTerm] at h
  | token :: tokens =>
    cases hkind : token.kind with
    | «variable» =>
      rw [readTerm, hkind] at h
      exact ⟨_, tokens, .var hkind, h⟩
    | punctuation => simp [readTerm, hkind] at h
    | numeral =>
      cases hsymbol : Symbol.ofString token.text with
      | error e => simp [readTerm, hkind, hsymbol] at h
      | ok symbol =>
        simp only [readTerm, hkind, hsymbol] at h
        exact ⟨_, tokens, .numeral hkind hsymbol, h⟩
    | atom =>
      cases hsymbol : Symbol.ofString token.text with
      | error e => simp [readTerm, hkind, hsymbol] at h
      | ok symbol =>
        obtain ⟨hconst, -⟩ | ⟨mark, args, htokens, hopen, happ⟩ :=
          readTerm_of_atom fault stack tokens hkind hsymbol
        · rw [hconst] at h
          exact ⟨_, tokens, .atom hkind hsymbol, h⟩
        · rw [happ] at h
          have hargs : args.length < tokens.length := by
            rw [htokens]
            exact Nat.lt_succ_self _
          obtain ⟨t, rest, hfirst, h⟩ := exists_reads_of_readTerm h
          have hlength := hfirst.length_lt
          obtain ⟨ts, rest', hrest, h⟩ := exists_readsRest_of_resume h
          rw [htokens]
          exact ⟨_, rest', .application hkind hsymbol hopen hfirst hrest, h⟩
termination_by tokens.length

/-- The rest of an open application is derived, and reading goes on behind it. -/
theorem exists_readsRest_of_resume {functor : Symbol} {args : List Term} {t : Term}
    {stack : List Frame} {tokens : List Token}
    (h : resume fault t (⟨functor, args⟩ :: stack) tokens = .ok u stream) :
    ∃ ts rest, ReadsRest tokens ts rest ∧
      resume fault (.app functor (args.reverse ++ t :: ts)) stack rest = .ok u stream := by
  match tokens with
  | [] => simp [resume] at h
  | mark :: tokens =>
    rw [resume] at h
    dsimp only at h
    split at h
    · next hcomma =>
      obtain ⟨s, rest, hfirst, h⟩ := exists_reads_of_readTerm h
      have := hfirst.length_lt
      obtain ⟨ts, rest', hrest, h⟩ := exists_readsRest_of_resume h
      refine ⟨s :: ts, rest', .next hcomma hfirst hrest, ?_⟩
      simpa using h
    · split at h
      · next hclose =>
        refine ⟨[], tokens, .close hclose, ?_⟩
        simpa using h
      · cases h
termination_by tokens.length

end

/-! ### What is derived is read -/

/-- In front of whatever ends a term, what the tree derives is read whole. -/
def IsRead (fault : Option LexError) (tree : TermTree) : Prop :=
  ∀ ⦃t : Term⦄ ⦃used rest : List Token⦄, tree.term? = some t → used.map Token.lexeme = tree.lexemes →
    EndsTerm (rest.map Token.lexeme) →
      ∀ stack, readTerm fault stack (used ++ rest) = resume fault t stack rest

theorem token_of_lexeme_eq {kind : TokenKind} {text : String} (h : token.lexeme = ⟨kind, text⟩) :
    token.kind = kind ∧ token.text = text :=
  Lexeme.mk.inj h

theorem endsTerm_of_restLexemes {trees : List TermTree} {used : List Token}
    (hused : used.map Token.lexeme = TermTree.restLexemes trees) (rest : List Token) :
    EndsTerm ((used ++ rest).map Token.lexeme) := by
  rw [List.map_append, hused]
  exact TermTree.endsTerm_restLexemes trees _

theorem resume_of_restLexemes {trees : List TermTree} (hread : ∀ tree ∈ trees, IsRead fault tree)
    {ts : List Term} (hts : List.Forall₂ (fun tree t => tree.term? = some t) trees ts)
    {used : List Token} (hused : used.map Token.lexeme = TermTree.restLexemes trees)
    (functor : Symbol) (args : List Term) (t : Term) (stack : List Frame) (rest : List Token) :
    resume fault t (⟨functor, args⟩ :: stack) (used ++ rest) =
      resume fault (.app functor (args.reverse ++ t :: ts)) stack rest := by
  induction hts generalizing used args t with
  | nil =>
    rw [TermTree.restLexemes, List.map_eq_singleton_iff] at hused
    obtain ⟨mark, rfl, hmark⟩ := hused
    have hcomma : ¬ mark.isMark ',' = true := by
      rw [Token.isMark_iff, hmark]
      simp
    rw [List.singleton_append, resume]
    simp [hcomma, Token.isMark_iff.2 hmark]
  | @cons tree s trees ts hs hts ih =>
    rw [List.forall_mem_cons] at hread
    rw [TermTree.restLexemes, List.map_eq_cons_iff] at hused
    obtain ⟨mark, behind, rfl, hmark, hbehind⟩ := hused
    obtain ⟨used₁, used₂, rfl, hused₁, hused₂⟩ := List.map_eq_append_iff.1 hbehind
    rw [List.cons_append, resume, List.append_assoc]
    simp only [Token.isMark_iff.2 hmark, if_true]
    rw [hread.1 hs hused₁ (endsTerm_of_restLexemes hused₂ rest), ih hread.2 hused₂]
    simp

/-- A derived term is read whole, provided that no parenthesis opens behind it. -/
theorem isRead (fault : Option LexError) (tree : TermTree) : IsRead fault tree := by
  intro t used rest ht hused hrest stack
  induction tree using TermTree.induction generalizing t used rest stack with
  | var x =>
    rw [TermTree.lexemes_var, List.map_eq_singleton_iff] at hused
    obtain ⟨token, rfl, htoken⟩ := hused
    obtain ⟨hkind, rfl⟩ := token_of_lexeme_eq htoken
    obtain rfl := Option.some.inj ((TermTree.term?_var _).symm.trans ht)
    simp [readTerm, hkind]
  | numeral n =>
    rw [TermTree.lexemes_numeral, List.map_eq_singleton_iff] at hused
    obtain ⟨token, rfl, htoken⟩ := hused
    obtain ⟨hkind, rfl⟩ := token_of_lexeme_eq htoken
    obtain ⟨symbol, hsymbol, rfl⟩ := TermTree.term?_numeral.1 ht
    simp [readTerm, hkind, hsymbol]
  | atom a =>
    rw [TermTree.lexemes_atom, List.map_eq_singleton_iff] at hused
    obtain ⟨token, rfl, htoken⟩ := hused
    obtain ⟨hkind, rfl⟩ := token_of_lexeme_eq htoken
    obtain ⟨symbol, hsymbol, rfl⟩ := TermTree.term?_atom.1 ht
    obtain ⟨hconst, -⟩ | ⟨mark, args, rfl, hopen, -⟩ :=
      readTerm_of_atom fault stack rest hkind hsymbol
    · exact hconst
    · exact absurd (congrArg some (Token.isMark_iff.1 hopen)) hrest
  | application f first others ihfirst ihothers =>
    obtain ⟨functor, u, us, hfunctor, hu, hus, rfl⟩ := TermTree.term?_application.1 ht
    simp only [TermTree.lexemes_application, List.map_eq_cons_iff, List.map_eq_append_iff] at hused
    obtain ⟨token, _, rfl, htoken, mark, _, rfl, hmark, used₁, used₂, rfl, hused₁, hused₂⟩ := hused
    obtain ⟨hkind, rfl⟩ := token_of_lexeme_eq htoken
    simp only [List.cons_append, List.append_assoc]
    obtain ⟨-, hends⟩ | ⟨_, _, hargs, -, happ⟩ :=
      readTerm_of_atom fault stack (mark :: (used₁ ++ (used₂ ++ rest))) hkind hfunctor
    · exact absurd (congrArg some hmark) hends
    · obtain ⟨rfl, rfl⟩ := List.cons.inj hargs
      rw [happ, ihfirst hu hused₁ (endsTerm_of_restLexemes hused₂ rest),
        resume_of_restLexemes ihothers hus hused₂]
      rfl

/-! ### Equations -/

theorem bind_eq_ok_iff {α β : Type} {first : Parser α} {next : α → Parser β}
    {stream last : TokenStream} {b : β} : (first >>= next) stream = .ok b last ↔
      ∃ a behind, first stream = .ok a behind ∧ next a behind = .ok b last := by
  show EStateM.bind first next stream = .ok b last ↔ _
  rw [EStateM.bind]
  cases first stream <;> simp

theorem get_eq_ok_iff {stream last seen : TokenStream} :
    (get : Parser TokenStream) stream = .ok seen last ↔ seen = stream ∧ last = stream := by
  show EStateM.Result.ok stream stream = .ok seen last ↔ _
  simp [eq_comm]

theorem pure_eq_ok_iff {α : Type} {a b : α} {stream last : TokenStream} :
    (pure a : Parser α) stream = .ok b last ↔ b = a ∧ last = stream := by
  show EStateM.Result.ok a stream = .ok b last ↔ _
  simp [eq_comm]

theorem expectMark_eq_ok_iff {c : Char} {last : TokenStream} :
    expectMark c stream = .ok () last ↔ ∃ token, token.lexeme = .mark c ∧
      stream = ⟨token :: last.tokens, last.fault⟩ := by
  obtain ⟨tokens, fault⟩ := stream
  obtain ⟨rest, fault'⟩ := last
  rw [expectMark]
  cases tokens with
  | nil => simp
  | cons token tokens =>
    by_cases h : token.isMark c = true
    · simp [h, Token.isMark_iff.1 h]
    · have hlexeme := mt Token.isMark_iff.2 h
      simp only [h, TokenStream.mk.injEq, List.cons.injEq]
      refine ⟨nofun, ?_⟩
      rintro ⟨_, hmark, ⟨rfl, -⟩, -⟩
      exact absurd hmark hlexeme

theorem reads_of_term {last : TokenStream} (h : term stream = .ok t last) :
    Reads stream.tokens t last.tokens ∧ stream.fault = last.fault := by
  obtain ⟨u, rest, hread, hresume⟩ := exists_reads_of_readTerm h
  rw [resume] at hresume
  cases hresume
  exact ⟨hread, rfl⟩

theorem term_of_lexemes {tree : TermTree} (ht : tree.term? = some t) {used rest : List Token}
    (hused : used.map Token.lexeme = tree.lexemes) (hrest : EndsTerm (rest.map Token.lexeme)) :
    term ⟨used ++ rest, fault⟩ = .ok t ⟨rest, fault⟩ := by
  rw [term, isRead fault tree ht hused hrest, resume]

/-- An equation that is read is derived. -/
theorem exists_tree_of_equation {e : Equation} {last : TokenStream}
    (h : equation stream = .ok e last) : ∃ (d : EquationTree) (used : List Token),
      d.equation? = some e ∧ used.map Token.lexeme = d.lexemes ∧
        stream = ⟨used ++ last.tokens, last.fault⟩ := by
  obtain ⟨tokens, fault⟩ := stream
  simp only [equation, bind_eq_ok_iff] at h
  obtain ⟨left, behindLeft, hleft, ⟨⟩, behindMark, hmark, right, behind, hright, hpure⟩ := h
  cases hpure
  obtain ⟨⟨l, usedLeft, hl, husedLeft, hsplit⟩, hfault⟩ := reads_of_term hleft
  obtain ⟨mark, hequals, rfl⟩ := expectMark_eq_ok_iff.1 hmark
  obtain ⟨⟨r, usedRight, hr, husedRight, hsplit'⟩, hfault'⟩ := reads_of_term hright
  refine ⟨⟨l, r⟩, usedLeft ++ mark :: usedRight, ?_, ?_, ?_⟩
  · exact EquationTree.equation?_eq_some_iff.2 ⟨hl, hr⟩
  · simp [EquationTree.lexemes, husedLeft, hequals, husedRight]
  · dsimp only at hsplit hfault
    rw [hsplit, hfault, hsplit', hfault']
    simp

/-- A derived equation is read whole, provided that no parenthesis opens behind it. -/
theorem equation_of_lexemes {d : EquationTree} {e : Equation} (he : d.equation? = some e)
    {used rest : List Token} (hused : used.map Token.lexeme = d.lexemes)
    (hrest : EndsTerm (rest.map Token.lexeme)) :
    equation ⟨used ++ rest, fault⟩ = .ok e ⟨rest, fault⟩ := by
  obtain ⟨hleft, hright⟩ := EquationTree.equation?_eq_some_iff.1 he
  rw [EquationTree.lexemes, List.map_eq_append_iff] at hused
  obtain ⟨usedLeft, _, rfl, husedLeft, hmore⟩ := hused
  obtain ⟨mark, usedRight, rfl, hmark, husedRight⟩ := List.map_eq_cons_iff.1 hmore
  have hends : EndsTerm ((mark :: (usedRight ++ rest)).map Token.lexeme) := by
    rw [List.map_cons, hmark]
    exact endsTerm_mark (by decide)
  simp only [equation, bind_eq_ok_iff, List.append_assoc, List.cons_append]
  exact ⟨_, _, term_of_lexemes hleft husedLeft hends, (), _,
    expectMark_eq_ok_iff.2 ⟨mark, hmark, rfl⟩, _, _, term_of_lexemes hright husedRight hrest, rfl⟩

/-! ### Lists of equations -/

theorem optionalMark_eq_ok_iff {c : Char} {more : Bool} {last : TokenStream} :
    optionalMark c stream = .ok more last ↔
      (more = true ∧ ∃ token, token.lexeme = .mark c ∧
        stream = ⟨token :: last.tokens, last.fault⟩) ∨
      (more = false ∧ (stream.tokens.map Token.lexeme).head? ≠ some (.mark c) ∧ last = stream) := by
  obtain ⟨tokens, fault⟩ := stream
  obtain ⟨rest, fault'⟩ := last
  rw [optionalMark]
  cases tokens with
  | nil => simp [eq_comm]
  | cons token tokens =>
    by_cases h : token.isMark c = true
    · have hlexeme := Token.isMark_iff.1 h
      simp [h, hlexeme, eq_comm]
    · have hlexeme := mt Token.isMark_iff.2 h
      constructor
      · intro hok
        simp only [h] at hok
        cases hok
        exact .inr ⟨rfl, by simpa using hlexeme, rfl⟩
      · rintro (⟨-, _, hmark, hsame⟩ | ⟨rfl, -, hsame⟩)
        · cases hsame
          exact absurd hmark hlexeme
        · rw [hsame]
          simp [h]

/-- What one more equation can do. -/
theorem equationsUpTo_succ_eq_ok_iff {n : ℕ} {E : List Equation} {last : TokenStream} :
    equationsUpTo (n + 1) stream = .ok E last ↔
      (stream.atEnd = true ∧ E = [] ∧ last = stream) ∨
      (stream.atEnd = false ∧ ∃ e behind more behindMark, equation stream = .ok e behind ∧
        optionalMark ';' behind = .ok more behindMark ∧
        if more then ∃ es, equationsUpTo n behindMark = .ok es last ∧ E = e :: es
        else E = [e] ∧ last = behindMark) := by
  rw [equationsUpTo, bind_eq_ok_iff]
  simp only [get_eq_ok_iff, exists_and_left, exists_eq_left, and_assoc]
  cases hend : stream.atEnd with
  | true => simp [pure_eq_ok_iff]
  | false =>
    simp only [bind_eq_ok_iff, Bool.false_eq_true, if_false, false_and, false_or, true_and]
    refine exists_congr fun e => exists_congr fun behind => and_congr_right fun _ =>
      exists_congr fun more => exists_congr fun behindMark => and_congr_right fun _ => ?_
    cases more with
    | true => simp only [if_true, bind_eq_ok_iff, pure_eq_ok_iff, ↓existsAndEq, and_true]
    | false => simp [pure_eq_ok_iff]

/-- What is read up to the end, or to where no semicolon follows, is derived. -/
theorem exists_tree_of_equationsUpTo {n : ℕ} {E : List Equation} {last : TokenStream}
    (h : equationsUpTo n stream = .ok E last) : ∃ (d : SourceTree) (used : List Token),
      d.equations? = some E ∧ used.map Token.lexeme = d.lexemes ∧
        stream = ⟨used ++ last.tokens, last.fault⟩ := by
  induction n generalizing stream E with
  | zero =>
    rw [equationsUpTo, pure_eq_ok_iff] at h
    obtain ⟨rfl, rfl⟩ := h
    exact ⟨.empty, [], rfl, rfl, rfl⟩
  | succ n ih =>
    obtain ⟨-, rfl, rfl⟩ | ⟨-, e, behind, more, behindMark, he, hmore, hrest⟩ :=
      equationsUpTo_succ_eq_ok_iff.1 h
    · exact ⟨.empty, [], rfl, rfl, rfl⟩
    · obtain ⟨first, used, hfirst, hused, rfl⟩ := exists_tree_of_equation he
      obtain ⟨rfl, mark, hmark, rfl⟩ | ⟨rfl, -, rfl⟩ := optionalMark_eq_ok_iff.1 hmore
      · obtain ⟨es, hes, rfl⟩ := hrest
        obtain ⟨d, used', hd, hused', rfl⟩ := ih hes
        cases d with
        | empty =>
          cases hd
          refine ⟨.list first [] true, used ++ mark :: used', ?_, ?_, by simp⟩
          · exact SourceTree.equations?_list.2 ⟨e, [], hfirst, rfl, rfl⟩
          · simp [SourceTree.lexemes, SourceTree.restLexemes, hused, hmark, hused']
        | list second rest trailing =>
          refine ⟨.list first (second :: rest) trailing, used ++ mark :: used', ?_, ?_, by simp⟩
          · exact SourceTree.equations?_list.2 ⟨e, es, hfirst, hd, rfl⟩
          · simp [SourceTree.lexemes, SourceTree.restLexemes, hused, hmark, hused']
      · obtain ⟨rfl, rfl⟩ := hrest
        refine ⟨.list first [] false, used, ?_, ?_, rfl⟩
        · exact SourceTree.equations?_list.2 ⟨e, [], hfirst, rfl, rfl⟩
        · simp [SourceTree.lexemes, SourceTree.restLexemes, hused]

/-- What is derived is read up to the end. -/
theorem equationsUpTo_of_lexemes {n : ℕ} {d : SourceTree} {E : List Equation}
    (hE : d.equations? = some E) {tokens : List Token}
    (htokens : tokens.map Token.lexeme = d.lexemes) (hn : tokens.length < n) :
    equationsUpTo n ⟨tokens, none⟩ = .ok E ⟨[], none⟩ := by
  induction n generalizing d E tokens with
  | zero => exact absurd hn (Nat.not_lt_zero _)
  | succ n ih =>
    rw [equationsUpTo_succ_eq_ok_iff]
    cases d with
    | empty =>
      cases hE
      cases List.map_eq_nil_iff.1 htokens
      exact .inl ⟨rfl, rfl, rfl⟩
    | list first rest trailing =>
      obtain ⟨e, es, he, hes, rfl⟩ := SourceTree.equations?_list.1 hE
      obtain ⟨used, more, rfl, hused, hmore⟩ := List.map_eq_append_iff.1 htokens
      have hends : EndsTerm (more.map Token.lexeme) := by
        rw [hmore]
        exact SourceTree.endsTerm_restLexemes trailing rest
      have hne : used ≠ [] := by
        rintro rfl
        exact first.lexemes_ne_nil hused.symm
      refine .inr ⟨by simp [TokenStream.atEnd, hne], e, ⟨more, none⟩, ?_⟩
      obtain ⟨rfl, hnil⟩ | ⟨d, hlexemes, hd⟩ := SourceTree.restLexemes_cases rest trailing
      · rw [hnil, List.map_eq_nil_iff] at hmore
        cases hmore
        cases hes
        exact ⟨false, _, equation_of_lexemes he hused hends,
          optionalMark_eq_ok_iff.2 (.inr ⟨rfl, by simp, rfl⟩), rfl, rfl⟩
      · rw [hlexemes, List.map_eq_cons_iff] at hmore
        obtain ⟨mark, more, rfl, hmark, hmore⟩ := hmore
        have hn : more.length < n := by
          simp only [List.length_append, List.length_cons] at hn
          omega
        exact ⟨true, ⟨more, none⟩, equation_of_lexemes he hused hends,
          optionalMark_eq_ok_iff.2 (.inl ⟨rfl, mark, hmark, rfl⟩), es,
          ih (hd.trans hes) hmore hn, rfl⟩

theorem expectEnd_eq_ok_iff {last : TokenStream} :
    expectEnd stream = .ok () last ↔ stream = ⟨[], none⟩ ∧ last = stream := by
  obtain ⟨tokens, fault⟩ := stream
  rw [expectEnd]
  cases tokens <;> cases fault <;> simp [eq_comm]

theorem equations_eq_ok_iff {E : List Equation} {last : TokenStream} :
    equations stream = .ok E last ↔ last = ⟨[], none⟩ ∧ stream.fault = none ∧
      ∃ d : SourceTree, stream.tokens.map Token.lexeme = d.lexemes ∧ d.equations? = some E := by
  simp only [equations, bind_eq_ok_iff, get_eq_ok_iff, pure_eq_ok_iff]
  constructor
  · rintro ⟨_, _, ⟨rfl, rfl⟩, all, behind, hall, ⟨⟩, _, hend, rfl, rfl⟩
    obtain ⟨rfl, rfl⟩ := expectEnd_eq_ok_iff.1 hend
    obtain ⟨d, used, hd, hused, rfl⟩ := exists_tree_of_equationsUpTo hall
    exact ⟨rfl, rfl, d, by simpa using hused, hd⟩
  · rintro ⟨rfl, hfault, d, htokens, hd⟩
    obtain ⟨tokens, fault⟩ := stream
    cases hfault
    exact ⟨_, _, ⟨rfl, rfl⟩, E, _, equationsUpTo_of_lexemes hd htokens (Nat.lt_succ_self _), (), _,
      expectEnd_eq_ok_iff.2 ⟨rfl, rfl⟩, rfl, rfl⟩

end Parser

end Multiequation
