import Multiequation.Proofs.Equation.Reading
import Multiequation.Symbol.Table

/-!
# The language of the parser

All tokens of a source are spelled as their kinds demand, so that no name is refused on the way: each
parser leaves spelled tokens and does not fail over a name. With what is known about reading, the
equations of a source are those that the one derivation of its tokens says, and a source whose tokens
have no derivation has none.
-/

namespace Multiequation

namespace Parser

variable {token : Token} {fault : Option LexError} {stream : TokenStream}

/-! ### Names -/

/-- All tokens that are left are spelled as their kinds demand. -/
def Spelled (stream : TokenStream) : Prop := ∀ token ∈ stream.tokens, token.lexeme.IsSpelled

/-- The failure that a name is refused. -/
def IsRefused {α : Type} (result : EStateM.Result ParseError TokenStream α) : Prop :=
  ∃ e span last, result = .error (.invalidSymbol e span) last

/-- A parser that refuses no name of spelled tokens and leaves such tokens. -/
structure Accepts {α : Type} (parser : Parser α) : Prop where
  spelled : ∀ {stream a last}, Spelled stream → parser stream = .ok a last → Spelled last
  not_isRefused : ∀ {stream}, Spelled stream → ¬ IsRefused (parser stream)

theorem not_isRefused_ok {α : Type} {a : α} : ¬ IsRefused (.ok a stream) := by
  rintro ⟨e, span, last, ⟨⟩⟩

theorem not_isRefused_missing {α : Type} : ¬ IsRefused (α := α) (.error (missing fault) stream) := by
  rintro ⟨e, span, last, h⟩
  cases fault <;> cases h

theorem not_isRefused_unexpected {α : Type} {wanted : Wanted} {span : Span} :
    ¬ IsRefused (α := α) (.error (.unexpected wanted span) stream) := by
  rintro ⟨e, span, last, ⟨⟩⟩

mutual

theorem not_isRefused_readTerm {stack : List Frame} {tokens : List Token}
    (hspelled : ∀ token ∈ tokens, token.lexeme.IsSpelled) :
    ¬ IsRefused (readTerm fault stack tokens) := by
  match tokens with
  | [] =>
    rw [readTerm]
    exact not_isRefused_missing
  | token :: tokens =>
    rw [List.forall_mem_cons] at hspelled
    cases hkind : token.kind with
    | «variable» =>
      rw [readTerm, hkind]
      exact not_isRefused_resume hspelled.2
    | punctuation =>
      rw [readTerm, hkind]
      exact not_isRefused_unexpected
    | numeral =>
      obtain ⟨symbol, hsymbol⟩ := hspelled.1.exists_symbol (.inr hkind)
      change Symbol.ofString token.text = .ok symbol at hsymbol
      simp only [readTerm, hkind, hsymbol]
      exact not_isRefused_resume hspelled.2
    | atom =>
      obtain ⟨symbol, hsymbol⟩ := hspelled.1.exists_symbol (.inl hkind)
      obtain ⟨hconst, -⟩ | ⟨mark, args, htokens, -, happ⟩ :=
        readTerm_of_atom fault stack tokens hkind hsymbol
      · rw [hconst]
        exact not_isRefused_resume hspelled.2
      · have hargs : args.length < tokens.length := by
          rw [htokens]
          exact Nat.lt_succ_self _
        rw [happ]
        rw [htokens, List.forall_mem_cons] at hspelled
        exact not_isRefused_readTerm hspelled.2.2
termination_by tokens.length

theorem not_isRefused_resume {t : Term} {stack : List Frame} {tokens : List Token}
    (hspelled : ∀ token ∈ tokens, token.lexeme.IsSpelled) :
    ¬ IsRefused (resume fault t stack tokens) := by
  match stack, tokens with
  | [], tokens =>
    rw [resume]
    exact not_isRefused_ok
  | frame :: stack, [] =>
    rw [resume]
    exact not_isRefused_missing
  | frame :: stack, token :: tokens =>
    rw [List.forall_mem_cons] at hspelled
    rw [resume]
    split
    · exact not_isRefused_readTerm hspelled.2
    · split
      · exact not_isRefused_resume hspelled.2
      · exact not_isRefused_unexpected
termination_by tokens.length

end

theorem Accepts.bind {α β : Type} {first : Parser α} {next : α → Parser β} (hfirst : Accepts first)
    (hnext : ∀ a, Accepts (next a)) : Accepts (first >>= next) where
  spelled hstream h := by
    obtain ⟨a, behind, ha, hb⟩ := bind_eq_ok_iff.1 h
    exact (hnext a).spelled (hfirst.spelled hstream ha) hb
  not_isRefused {stream} hstream := by
    have hrefused := hfirst.not_isRefused hstream
    change ¬ IsRefused (EStateM.bind first next stream)
    rw [EStateM.bind]
    cases h : first stream with
    | ok a behind => exact (hnext a).not_isRefused (hfirst.spelled hstream h)
    | error error behind =>
      rw [h] at hrefused
      rintro ⟨e, span, last, ⟨⟩⟩
      exact hrefused ⟨e, span, behind, rfl⟩

theorem Accepts.pure {α : Type} (a : α) : Accepts (Pure.pure a : Parser α) where
  spelled hstream h := by
    obtain ⟨-, rfl⟩ := pure_eq_ok_iff.1 h
    exact hstream
  not_isRefused _ := not_isRefused_ok

theorem Accepts.get : Accepts (MonadState.get : Parser TokenStream) where
  spelled hstream h := by
    obtain ⟨-, rfl⟩ := get_eq_ok_iff.1 h
    exact hstream
  not_isRefused _ := not_isRefused_ok

theorem Accepts.term : Accepts Parser.term where
  spelled {stream t last} hstream h := by
    obtain ⟨⟨tree, used, -, -, hsplit⟩, -⟩ := reads_of_term h
    exact fun token htoken => hstream token (hsplit ▸ List.mem_append_right _ htoken)
  not_isRefused hstream := not_isRefused_readTerm hstream

theorem Accepts.expectMark (c : Char) : Accepts (Parser.expectMark c) where
  spelled {stream t last} hstream h := by
    obtain ⟨mark, -, rfl⟩ := expectMark_eq_ok_iff.1 h
    exact fun token htoken => hstream token (List.mem_cons_of_mem _ htoken)
  not_isRefused {stream} _ := by
    rw [Parser.expectMark]
    split
    · exact not_isRefused_missing
    · dsimp only
      split
      · exact not_isRefused_ok
      · exact not_isRefused_unexpected

theorem Accepts.optionalMark (c : Char) : Accepts (Parser.optionalMark c) where
  spelled {stream more last} hstream h := by
    obtain ⟨-, mark, -, rfl⟩ | ⟨-, -, rfl⟩ := optionalMark_eq_ok_iff.1 h
    · exact fun token htoken => hstream token (List.mem_cons_of_mem _ htoken)
    · exact hstream
  not_isRefused {stream} _ := by
    rw [Parser.optionalMark]
    split
    · exact not_isRefused_ok
    · split
      · exact not_isRefused_ok
      · exact not_isRefused_ok

theorem Accepts.expectEnd : Accepts Parser.expectEnd where
  spelled hstream h := by
    obtain ⟨-, rfl⟩ := expectEnd_eq_ok_iff.1 h
    exact hstream
  not_isRefused {stream} _ := by
    obtain ⟨tokens, fault⟩ := stream
    cases tokens with
    | cons token tokens => exact not_isRefused_unexpected
    | nil =>
      cases fault with
      | some error => exact @not_isRefused_missing (some error) _ _
      | none => exact not_isRefused_ok

theorem Accepts.equation : Accepts Parser.equation :=
  Accepts.term.bind fun _ => (Accepts.expectMark '=').bind fun _ =>
    Accepts.term.bind fun _ => .pure _

theorem Accepts.equationsUpTo (n : ℕ) : Accepts (Parser.equationsUpTo n) := by
  induction n with
  | zero => exact .pure []
  | succ n ih =>
    refine Accepts.get.bind fun stream => ?_
    split
    · exact .pure []
    · refine Accepts.equation.bind fun first => (Accepts.optionalMark ';').bind fun more => ?_
      split
      · exact ih.bind fun _ => .pure _
      · exact .pure _

theorem Accepts.equations : Accepts Parser.equations :=
  Accepts.get.bind fun _ => (Accepts.equationsUpTo _).bind fun _ =>
    Accepts.expectEnd.bind fun _ => .pure _

/-- On the tokens of a source such a parser refuses no name. -/
theorem Accepts.onSource_ne {α : Type} {parser : Parser α} (h : Accepts parser) (source : Source)
    (e : InvalidSymbol) (span : Span) : parser.onSource source ≠ .error (.invalidSymbol e span) := by
  have hrefused := h.not_isRefused (TokenStream.isSpelled_of_mem (.ofSource source))
  rw [onSource, TokenStream.ofSource]
  split
  · exact nofun
  · next error last herror =>
    rw [herror] at hrefused
    rintro ⟨⟩
    exact hrefused ⟨e, span, last, rfl⟩

end Parser

/-! ### Sources -/

/-- The whole text consists of tokens, and they are those of the derivation. -/
def Source.Derives (source : Source) (d : SourceTree) : Prop :=
  (TokenStream.ofSource source).fault = none ∧
    (TokenStream.ofSource source).tokens.map Token.lexeme = d.lexemes

theorem Source.equations_eq_ok_iff {source : Source} {E : List Equation} :
    source.equations = .ok E ↔ ∃ d, source.Derives d ∧ d.equations? = some E := by
  have hequations : source.equations = .ok E ↔
      ∃ last, Parser.equations (.ofSource source) = .ok E last := by
    rw [equations, Parser.onSource]
    cases Parser.equations (.ofSource source) <;> simp
  simp [hequations, Parser.equations_eq_ok_iff, Derives, and_assoc]

theorem Source.Derives.isSpelled {source : Source} {d : SourceTree} (h : source.Derives d) :
    ∀ l ∈ d.lexemes, l.IsSpelled := by
  rw [← h.2, List.forall_mem_map]
  exact TokenStream.isSpelled_of_mem _

/-- A table takes every valid name. -/
theorem SymbolTable.exists_intern_eq (table : SymbolTable) {name : String} {symbol : Symbol}
    (h : Symbol.ofString name = .ok symbol) : ∃ id table', table.intern name = .ok (id, table') := by
  rw [intern, h]
  dsimp only
  split
  · exact ⟨_, _, rfl⟩
  · exact ⟨_, _, rfl⟩

/-- The parser accepts exactly the sources whose tokens a derivation has, and returns what it says.
There is at most one such derivation. No name of an atom or a numeral is refused, neither by a table of
symbols nor by the parser. -/
theorem equations_exact (source : Source) :
    (∀ E, source.equations = .ok E ↔ ∃ d, source.Derives d ∧ d.equations? = some E) ∧
    (∀ d, source.Derives d → ∃ E, d.equations? = some E) ∧
    (∀ d d', source.Derives d → source.Derives d' → d = d') ∧
    (∀ token ∈ (TokenStream.ofSource source).tokens, token.kind = .atom ∨ token.kind = .numeral →
      (∃ symbol, Symbol.ofString token.text = .ok symbol) ∧
        ∀ table : SymbolTable, ∃ id table', table.intern token.text = .ok (id, table')) ∧
    ∀ e span, source.equations ≠ .error (.invalidSymbol e span) ∧
      source.term ≠ .error (.invalidSymbol e span) := by
  refine ⟨fun E => Source.equations_eq_ok_iff, fun d hd => d.exists_equations?_eq hd.isSpelled,
    ?_, ?_, ?_⟩
  · exact fun d d' hd hd' => SourceTree.lexemes_injective (hd.2.symm.trans hd'.2)
  · intro token htoken hkind
    obtain ⟨symbol, hsymbol⟩ := (TokenStream.isSpelled_of_mem _ token htoken).exists_symbol hkind
    exact ⟨⟨symbol, hsymbol⟩, fun table => table.exists_intern_eq hsymbol⟩
  · exact fun e span => ⟨Parser.Accepts.equations.onSource_ne source e span,
      Parser.Accepts.term.onSource_ne source e span⟩

end Multiequation
