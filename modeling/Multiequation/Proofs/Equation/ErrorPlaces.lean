import Multiequation.Proofs.Equation.Blocking
import Multiequation.Proofs.Source.Diagnostics
import Multiequation.Proofs.Token.Locality

/-!
# Places of syntax errors

The place of a syntax error is the end of the longest beginning of the tokens that a sentence has: the
token that comes next, or the character that was not recognised, or the end of the text. The stages tell
where this is, since a token that its stage has no step for is wrong whatever follows it, and every stage
has a way to a sentence. A text that is exchanged behind the place leads to the same stage there, and to a
token of the same kind or to the same character, so it is rejected at the same place.
-/

namespace Multiequation

open Multiequation.Text

/-- The three kinds of syntax errors. -/
inductive ErrorKind
  | lex
  | parse
  | eof
  deriving DecidableEq

namespace ParseError

/-- The kind of a syntax error. -/
def kind : ParseError → ErrorKind
  | .unrecognised _ => .lex
  | .unexpected _ _ => .parse
  | .invalidSymbol _ _ => .parse
  | .endOfInput => .eof

/-- The span that a syntax error is about. -/
def place (source : Source) : ParseError → Span
  | .unrecognised error => error.span
  | .unexpected _ span => span
  | .invalidSymbol _ span => span
  | .endOfInput => source.endSpan

/-- One of the messages of a syntax error ends in the excerpt of its place. -/
theorem exists_message (source : Source) (e : ParseError) :
    ∃ text, text ++ source.excerpt (e.place source) ∈ e.chain source := by
  cases e with
  | unrecognised error =>
    exact ⟨"unrecognizable character at ", List.mem_cons_of_mem _ (List.mem_singleton_self _)⟩
  | unexpected wanted span => exact ⟨_, List.mem_singleton_self _⟩
  | invalidSymbol error span => exact ⟨_, List.mem_singleton_self _⟩
  | endOfInput => exact ⟨_, List.mem_singleton_self _⟩

end ParseError

namespace Source

variable {source source' : Source} {e : ParseError} {used rest : List Token} {token : Token}
  {last : Stage} {error : LexError} {n : ℕ}

/-- The lexemes of the tokens of the source. -/
def lexemes (source : Source) : List Lexeme :=
  (TokenStream.ofSource source).tokens.map Token.lexeme

/-- The first `n` tokens are the longest beginning of all tokens that can be extended to a sentence. -/
def HasValidPrefix (source : Source) (n : ℕ) : Prop :=
  n ≤ source.lexemes.length ∧ IsViable (source.lexemes.take n) ∧
    ∀ m ≤ source.lexemes.length, IsViable (source.lexemes.take m) → m ≤ n

/-- The error is about what comes behind the first `n` tokens: the next token, or else the character that
was not recognised, or else the end of the text. -/
def IsReportedBehind (source : Source) (e : ParseError) (n : ℕ) : Prop :=
  match (TokenStream.ofSource source).tokens[n]?, (TokenStream.ofSource source).fault with
  | some token, _ => e.kind = .parse ∧ e.place source = token.span
  | none, some error => e.kind = .lex ∧ e.place source = error.span
  | none, none => e.kind = .eof ∧ e.place source = source.endSpan

theorem isSpelled_take (source : Source) (m : ℕ) : ∀ l ∈ source.lexemes.take m, l.IsSpelled := by
  intro l hl
  obtain ⟨token, htoken, rfl⟩ := List.mem_map.1 (List.mem_of_mem_take hl)
  exact TokenStream.isSpelled_of_mem _ token htoken

theorem lexemes_eq (htokens : (TokenStream.ofSource source).tokens = used ++ token :: rest) :
    source.lexemes = used.map Token.lexeme ++ token.lexeme :: rest.map Token.lexeme := by
  rw [lexemes, htokens, List.map_append, List.map_cons]

/-! ### Rejection -/

theorem blocked_of_eq_error (h : source.equations = .error e) :
    Parser.Blocked .equation (.ofSource source) e := by
  have hfollows := Parser.follows_equations (TokenStream.isSpelled_of_mem (.ofSource source))
  unfold Source.equations Parser.onSource at h
  change Parser.Follows .equation (TokenStream.ofSource source) _
    (Parser.equations (TokenStream.ofSource source)) at hfollows
  split at h
  · cases h
  · next e' left heq =>
    cases h
    rwa [heq] at hfollows

/-- The tokens of a source that is not rejected lead to a stage, and nothing stopped the lexer. -/
theorem run_of_eq_ok {E : List Equation} (h : source.equations = .ok E) :
    (TokenStream.ofSource source).fault = none ∧
      ∃ last, Stage.equation.run source.lexemes = some last := by
  obtain ⟨d, hd, -⟩ := Source.equations_eq_ok_iff.1 h
  obtain ⟨last, hlast, -⟩ := Stage.exists_run_source d
  exact ⟨hd.1, last, by rw [lexemes, hd.2, hlast]⟩

/-- A token that its stage has no step for is reported. -/
theorem eq_error_of_step_eq_none
    (htokens : (TokenStream.ofSource source).tokens = used ++ token :: rest)
    (hrun : Stage.equation.run (used.map Token.lexeme) = some last)
    (hstep : last.step token.lexeme = none) :
    ∃ wanted, source.equations = .error (.unexpected wanted token.span) := by
  have hlexemes := lexemes_eq htokens
  have hdead : ∀ next, Stage.equation.run source.lexemes ≠ some next := fun next hnext => by
    have hall := hlexemes.symm.trans (List.append_nil source.lexemes).symm
    have := Stage.length_le_of_step_eq_none hrun hstep hnext hall
    rw [hlexemes, List.length_append, List.length_cons] at this
    omega
  cases h : source.equations with
  | ok E =>
    obtain ⟨-, next, hnext⟩ := run_of_eq_ok h
    exact absurd hnext (hdead next)
  | error e =>
    cases blocked_of_eq_error h with
    | missing hrun' hend => exact absurd hrun' (hdead _)
    | @unexpected used' rest' token' last' wanted htokens' hrun' hstep' =>
      -- neither of the two places lies behind the other
      have hlexemes' := hlexemes.symm.trans (lexemes_eq htokens')
      have hle := Stage.length_le_of_step_eq_none hrun hstep hrun' hlexemes'
      have hge := Stage.length_le_of_step_eq_none hrun' hstep' hrun hlexemes'.symm
      rw [List.length_map, List.length_map] at hle hge
      obtain ⟨-, htail⟩ := List.append_inj (htokens.symm.trans htokens') (by omega)
      obtain ⟨rfl, -⟩ := List.cons.inj htail
      exact ⟨wanted, rfl⟩

/-- What stopped the lexer is reported if all tokens have a place. -/
theorem eq_error_of_fault (hfault : (TokenStream.ofSource source).fault = some error)
    (hrun : Stage.equation.run source.lexemes = some last) :
    source.equations = .error (.unrecognised error) := by
  cases h : source.equations with
  | ok E =>
    have hnone := (run_of_eq_ok h).1
    rw [hfault] at hnone
    cases hnone
  | error e =>
    obtain ⟨rfl, -⟩ := (blocked_of_eq_error h).elim_of_run hrun
    rw [hfault, Parser.missing]

/-! ### The first wrong place -/

/-- An error is reported behind the longest beginning that a sentence has. -/
theorem exists_hasValidPrefix (h : Parser.Blocked .equation (.ofSource source) e) :
    ∃ n, source.HasValidPrefix n ∧ source.IsReportedBehind e n := by
  cases h with
  | @unexpected used rest token last wanted htokens hrun hstep =>
    have hlexemes := lexemes_eq htokens
    have htake : source.lexemes.take used.length = used.map Token.lexeme := by
      rw [hlexemes, List.take_left' (List.length_map _)]
    refine ⟨used.length, ⟨?_, ?_, fun m hm hviable => ?_⟩, ?_⟩
    · rw [hlexemes, List.length_append, List.length_map]
      exact Nat.le_add_right _ _
    · rw [isViable_iff (source.isSpelled_take _), htake]
      exact ⟨last, hrun⟩
    · obtain ⟨next, hnext⟩ := (isViable_iff (source.isSpelled_take m)).1 hviable
      have heq := hlexemes.symm.trans (List.take_append_drop m source.lexemes).symm
      have hle := Stage.length_le_of_step_eq_none hrun hstep hnext heq
      rwa [List.length_take, List.length_map, min_eq_left hm] at hle
    · have hnext : (TokenStream.ofSource source).tokens[used.length]? = some token := by
        rw [htokens, List.getElem?_append_right (Nat.le_refl _), Nat.sub_self]
        rfl
      unfold IsReportedBehind
      rw [hnext]
      exact ⟨rfl, rfl⟩
  | missing hrun hend =>
    refine ⟨source.lexemes.length, ⟨Nat.le_refl _, ?_, fun m hm _ => hm⟩, ?_⟩
    · rw [isViable_iff (source.isSpelled_take _), List.take_length]
      exact ⟨_, hrun⟩
    · have hnext : (TokenStream.ofSource source).tokens[source.lexemes.length]? = none := by
        rw [lexemes, List.length_map, List.getElem?_eq_none (Nat.le_refl _)]
      unfold IsReportedBehind
      rw [hnext]
      cases (TokenStream.ofSource source).fault <;> exact ⟨rfl, rfl⟩

/-! ### What comes behind the place -/

/-- Two beginnings of the same number of bytes are the same. -/
theorem eq_of_byteLength_eq {before before' : List Char} {after after' : List Char}
    (heq : before ++ after = before' ++ after') (hlength : byteLength before = byteLength before') :
    before = before' ∧ after = after' := by
  obtain ⟨between, rfl, rfl⟩ := exists_between heq hlength.le
  rw [byteLength_append] at hlength
  obtain rfl : between = [] := byteLength_eq_zero_iff.1 (by omega)
  exact ⟨(List.append_nil _).symm, rfl⟩

/-- The tokens in front of a place are those of every text that begins in the same way, up to the
character at the place. -/
theorem runs_exchanged {before after after' filler seen : List Char} {c d : Char} {offset : ℕ}
    (hruns : (Cursor.ofSource source).Runs used ⟨filler ++ d :: seen, offset⟩)
    (hchars : source.chars = before ++ c :: after)
    (hplace : byteLength before = offset + byteLength filler)
    (hchars' : source'.chars = before ++ c :: after') :
    d = c ∧ (Cursor.ofSource source').Runs used ⟨filler ++ d :: after', offset⟩ := by
  have hhead : (filler ++ d :: after').head? = (filler ++ d :: seen).head? := by
    rw [List.head?_append, List.head?_append]
    rfl
  obtain ⟨front, hfront, hruns'⟩ := hruns.replace hhead
  obtain ⟨front', hfront', hoffset⟩ := ((hasCursor_ofSource source).covers hruns).hasLast
  dsimp only at hfront hruns' hfront' hoffset
  obtain rfl : front = front' := List.append_cancel_right (hfront.symm.trans hfront')
  -- the place is the same, so the text up to it is what was read and the filler
  rw [hchars, ← List.append_assoc] at hfront'
  obtain ⟨rfl, htail⟩ := eq_of_byteLength_eq hfront' (by rw [hplace, hoffset, byteLength_append])
  obtain ⟨rfl, -⟩ := List.cons.inj htail
  refine ⟨rfl, ?_⟩
  rw [Cursor.ofSource, hchars', List.append_assoc]
  exact hruns'

/-- A token without a place is one in every text that begins in the same way, up to its first
character. -/
theorem unexpected_alike (htokens : (TokenStream.ofSource source).tokens = used ++ token :: rest)
    (hrun : Stage.equation.run (used.map Token.lexeme) = some last)
    (hstep : last.step token.lexeme = none) {before after after' : List Char} {c : Char}
    (hchars : source.chars = before ++ c :: after) (hplace : byteLength before = token.span.start)
    (hchars' : source'.chars = before ++ c :: after') :
    ∃ wanted span, source'.equations = .error (.unexpected wanted span) ∧
      span.start = token.span.start := by
  obtain ⟨final, hall, -⟩ := exists_runs (.ofSource source)
  change (Cursor.ofSource source).Runs (TokenStream.ofSource source).tokens final at hall
  rw [htokens] at hall
  obtain ⟨⟨seen, offset⟩, hruns, hmore⟩ := hall.exists_append
  cases hmore with
  | step htoken hnext =>
    obtain ⟨filler, d, after₀, rfl, hstart, hsame⟩ := Cursor.exists_scan_token htoken
    obtain ⟨rfl, hruns'⟩ := runs_exchanged hruns hchars (hplace.trans hstart) hchars'
    obtain ⟨token', next', htoken', hstart', hkind, hmark⟩ := hsame after'
    have htokens' : (TokenStream.ofSource source').tokens =
        used ++ token' :: (TokenStream.ofCursor next').tokens := by
      rw [TokenStream.ofSource, hruns'.ofCursor_eq, Cursor.ofCursor_of_token htoken']
    have hstep' : last.step token'.lexeme = none := by
      rw [← hstep]
      exact Stage.step_congr hkind (fun hpunctuation => hmark (hkind.symm.trans hpunctuation)) last
    obtain ⟨wanted, herror⟩ := eq_error_of_step_eq_none htokens' hrun hstep'
    exact ⟨wanted, _, herror, hstart'⟩

/-- A character that was not recognised behind tokens that all have a place is reported for every text
that begins in the same way, unless it is a hyphen and a second one follows it there. -/
theorem unrecognised_alike (hfault : (TokenStream.ofSource source).fault = some error)
    (hrun : Stage.equation.run source.lexemes = some last) {before after after' : List Char} {c : Char}
    (hchars : source.chars = before ++ c :: after) (hplace : byteLength before = error.span.start)
    (hchars' : source'.chars = before ++ c :: after')
    (hstop : ¬ (c = '-' ∧ after'.head? = some '-')) :
    source'.equations = .error (.unrecognised error) := by
  obtain ⟨final, hall, ⟨-, hnone⟩ | ⟨span, stuck, hstuck, hspan⟩⟩ := exists_runs (.ofSource source)
  · change (TokenStream.ofSource source).fault = none at hnone
    rw [hfault] at hnone
    cases hnone
  obtain ⟨seen, offset⟩ := final
  obtain ⟨filler, d, after₀, rfl, hstart, hsame⟩ := Cursor.exists_scan_unrecognised hstuck
  change (TokenStream.ofSource source).fault = some ⟨span⟩ at hspan
  rw [hfault] at hspan
  cases hspan
  obtain ⟨rfl, hruns'⟩ := runs_exchanged hall hchars (hplace.trans hstart) hchars'
  obtain ⟨stuck', hstuck'⟩ := hsame after' hstop
  have hstream : TokenStream.ofSource source' =
      ⟨(TokenStream.ofSource source).tokens, some ⟨span⟩⟩ := by
    rw [TokenStream.ofSource, hruns'.ofCursor_eq, Cursor.ofCursor_of_unrecognised hstuck',
      List.append_nil]
    rfl
  have hrun' : Stage.equation.run source'.lexemes = some last := by
    rw [lexemes, hstream]
    exact hrun
  exact eq_error_of_fault (by rw [hstream]) hrun'

/-- A text that is exchanged behind the place of its error is rejected at the same place. -/
theorem rejected_alike (h : source.equations = .error e) {before after after' : List Char} {c : Char}
    (hchars : source.chars = before ++ c :: after) (hplace : byteLength before = (e.place source).start)
    (hchars' : source'.chars = before ++ c :: after')
    (hstop : e.kind = .lex → ¬ (c = '-' ∧ after'.head? = some '-')) :
    ∃ e', source'.equations = .error e' ∧ e'.kind = e.kind ∧
      (e'.place source').start = (e.place source).start := by
  cases blocked_of_eq_error h with
  | unexpected used rest wanted htokens hrun hstep =>
    obtain ⟨wanted', span, herror, hstart⟩ :=
      unexpected_alike htokens hrun hstep hchars hplace hchars'
    exact ⟨_, herror, rfl, hstart⟩
  | missing hrun hfinal =>
    cases hfault : (TokenStream.ofSource source).fault with
    | none =>
      -- there is no character at the end of the text
      have hsize := size_eq hchars
      have hpos := c.utf8Size_pos
      rw [hfault] at hplace
      change byteLength before = source.size at hplace
      rw [byteLength_cons] at hsize
      omega
    | some error =>
      rw [hfault] at hplace hstop
      exact ⟨_, unrecognised_alike hfault hrun hchars hplace hchars' (hstop rfl), rfl, rfl⟩

/-- Syntax errors are reported at the first wrong place. The tokens of a rejected text have a longest
beginning that can be extended to a sentence. The error is about what comes next: the next token, or the
character that was not recognised, or the end of the text, and one of its messages ends in the excerpt of
this place. A text that begins in the same way, up to the character at the place, is rejected with an
error of the same kind at the same line and column. The one exception is an unrecognised hyphen: with a
second hyphen behind it, it begins a comment. -/
theorem syntax_error_at_first_wrong_place (h : source.equations = .error e) :
    (∃ n, source.HasValidPrefix n ∧ source.IsReportedBehind e n) ∧
    (∃ text, text ++ source.excerpt (e.place source) ∈ e.chain source) ∧
    ∀ (source' : Source) (before after after' : List Char) (c : Char),
      source.chars = before ++ c :: after → byteLength before = (e.place source).start →
      source'.chars = before ++ c :: after' →
      (e.kind = .lex → ¬ (c = '-' ∧ after'.head? = some '-')) →
      ∃ e', source'.equations = .error e' ∧ e'.kind = e.kind ∧
        source'.positionAt? (e'.place source').start = source.positionAt? (e.place source).start := by
  refine ⟨exists_hasValidPrefix (blocked_of_eq_error h), e.exists_message source, ?_⟩
  intro source' before after after' c hchars hplace hchars' hstop
  obtain ⟨e', herror, hkind, hstart⟩ := rejected_alike h hchars hplace hchars' hstop
  refine ⟨e', herror, hkind, ?_⟩
  rw [hstart, ← hplace, positionAt?_eq_behind hchars, positionAt?_eq_behind hchars']

/-- A semicolon inside an application is reported, and an unrecognised character behind it is not. -/
theorem syntax_error_at_semicolon :
    let source : Source := ⟨"<test>", "X = f(a;\nY = #"⟩
    let source' : Source := ⟨"<test>", "X = f(a;"⟩
    let e : ParseError := .unexpected (.mark ')') ⟨7, 8⟩
    source.equations = .error e ∧
      (∃ n, source.HasValidPrefix n ∧ source.IsReportedBehind e n) ∧
      (∃ text, text ++ source.excerpt (e.place source) ∈ e.chain source) ∧
      ∃ e', source'.equations = .error e' ∧ e'.kind = .parse ∧
        source'.positionAt? (e'.place source').start = source.positionAt? 7 := by
  intro source source' e
  have h : source.equations = .error e := by decide +kernel
  obtain ⟨hplace, hmessage, hlater⟩ := syntax_error_at_first_wrong_place h
  exact ⟨h, hplace, hmessage, hlater source' "X = f(a".toList "\nY = #".toList [] ';'
    (by decide +kernel) (by decide +kernel) (by decide +kernel) nofun⟩

/-- A lone hyphen is not recognised, and two of them begin a comment. So the character behind the place of
this error decides whether it is one: with a hyphen in front of the `a` the text is read to its end. -/
theorem comment_begins_at_lone_hyphen :
    let source : Source := ⟨"<test>", "X = -a"⟩
    let source' : Source := ⟨"<test>", "X = --a"⟩
    let e : ParseError := .unrecognised ⟨⟨4, 5⟩⟩
    source.equations = .error e ∧ e.kind = .lex ∧
      source.positionAt? (e.place source).start = some ⟨1, 5⟩ ∧
      (∃ before after after', byteLength before = (e.place source).start ∧
        source.chars = before ++ '-' :: after ∧ source'.chars = before ++ '-' :: after') ∧
      source'.equations = .error .endOfInput ∧ ParseError.endOfInput.kind = .eof ∧
      source'.positionAt? (ParseError.endOfInput.place source').start = some ⟨1, 8⟩ := by
  refine ⟨by decide +kernel, rfl, by decide +kernel, ?_, by decide +kernel, rfl, by decide +kernel⟩
  exact ⟨"X = ".toList, "a".toList, "-a".toList, by decide +kernel⟩

end Source

end Multiequation
