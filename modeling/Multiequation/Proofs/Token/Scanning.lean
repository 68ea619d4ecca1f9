import Multiequation.Proofs.Token.Filler

/-!
# What a cursor sees

A cursor sees the end exactly in front of nothing but filler. It sees a token exactly if there is filler
and then a text that is spelled as the kind of the token demands and that the next character does not
go on with. And it sees an unrecognised character exactly if there is filler and then a character that
begins neither filler nor a token. The three descriptions do not mention how a cursor moves, and they
hold for every kind of token at once.
-/

namespace Multiequation

open Multiequation.Unicode

/-! ### Kinds of tokens -/

namespace TokenKind

/-- A token of the kind may begin with the character. -/
def Begins : TokenKind → Char → Prop
  | .variable, c => isUppercase c = true ∨ c = '_'
  | .atom, c => isAlphabetic c = true ∧ isUppercase c = false
  | .numeral, c => '0' ≤ c ∧ c ≤ '9'
  | .punctuation, c => c ∈ ['(', ')', ',', ';', '=']

/-- A token of the kind may go on with the character. -/
def GoesOn : TokenKind → Char → Prop
  | .variable, c | .atom, c => isAlphabetic c = true ∨ isNumber c = true ∨ c = '_' ∨ c = '\x27'
  | .numeral, c => '0' ≤ c ∧ c ≤ '9'
  | .punctuation, _ => False

/-- The characters are the text of a token of the kind. -/
def Writes (kind : TokenKind) (cs : List Char) : Prop :=
  ∃ c ds, cs = c :: ds ∧ kind.Begins c ∧ ∀ d ∈ ds, kind.GoesOn d

variable {kind : TokenKind} {c : Char}

theorem isDigit_iff : c.isDigit = true ↔ '0' ≤ c ∧ c ≤ '9' := by
  rw [Char.isDigit, Bool.and_eq_true, decide_eq_true_eq, decide_eq_true_eq]
  rfl

theorem isNameChar_iff : isNameChar c = true ↔
    isAlphabetic c = true ∨ isNumber c = true ∨ c = '_' ∨ c = '\x27' := by
  simp [isNameChar, isNameStart, or_assoc]

theorem continues_iff : kind.continues c = true ↔ kind.GoesOn c := by
  cases kind with
  | «variable» => exact isNameChar_iff
  | atom => exact isNameChar_iff
  | numeral => exact isDigit_iff
  | punctuation => simp [continues, GoesOn]

theorem isPunctuationMark_iff : isPunctuationMark c = true ↔ c ∈ ['(', ')', ',', ';', '='] := by
  simp [isPunctuationMark, or_assoc]

/-- No digit is a letter. -/
theorem isAlphabetic_of_isDigit (h : c.isDigit = true) :
    isAlphabetic c = false ∧ isUppercase c = false := by
  obtain ⟨hlo, hhi⟩ : 0x30 ≤ c.toNat ∧ c.toNat ≤ 0x39 := isDigit_iff.1 h
  have hdigits : ∀ i < 10, covers alphabeticRanges (0x30 + i) = false ∧
      covers uppercaseRanges (0x30 + i) = false := by decide +kernel
  have := hdigits (c.toNat - 0x30) (by omega)
  rwa [Nat.add_sub_cancel' hlo] at this

/-- The kinds begin with different characters. -/
theorem tokenKind?_eq_some_iff : tokenKind? c = some kind ↔ kind.Begins c := by
  constructor
  · intro h
    unfold tokenKind? at h
    split_ifs at h with hvariable hatom hdigit hmark <;> cases h
    · simpa [isVariableStart, Begins] using hvariable
    · have hupper : isUppercase c = false := by
        rw [isVariableStart, Bool.or_eq_true, not_or] at hvariable
        simpa using hvariable.1
      exact ⟨hatom, hupper⟩
    · exact isDigit_iff.1 hdigit
    · exact isPunctuationMark_iff.1 hmark
  · intro h
    unfold tokenKind?
    cases kind with
    | «variable» => rw [if_pos (by simpa [isVariableStart, Begins] using h)]
    | atom =>
      obtain ⟨hletter, hupper⟩ := h
      have hunderscore : c ≠ '_' := by
        rintro rfl
        exact absurd hletter (by decide +kernel)
      rw [if_neg (by simp [isVariableStart, hupper, hunderscore]), if_pos hletter]
    | numeral =>
      have hdigit := isDigit_iff.2 h
      obtain ⟨hletter, hupper⟩ := isAlphabetic_of_isDigit hdigit
      have hunderscore : c ≠ '_' := by
        rintro rfl
        exact absurd hdigit (by decide)
      rw [if_neg (by simp [isVariableStart, hupper, hunderscore]), if_neg (by simp [hletter]),
        if_pos hdigit]
    | punctuation =>
      -- five characters, which are looked at one by one
      simp only [Begins, List.mem_cons, List.not_mem_nil, or_false] at h
      rcases h with rfl | rfl | rfl | rfl | rfl <;> decide +kernel

theorem spells_iff_writes {text : String} : kind.spells text = true ↔ kind.Writes text.toList := by
  simp only [spells_iff, tokenKind?_eq_some_iff, continues_iff, Writes]

theorem Writes.ne_nil {cs : List Char} (h : kind.Writes cs) : cs ≠ [] := by
  obtain ⟨c, ds, rfl, -⟩ := h
  exact List.cons_ne_nil _ _

end TokenKind

/-- The characters begin with the text of a token. -/
def StartsToken (cs : List Char) : Prop :=
  ∃ (kind : TokenKind) (text rest : List Char), cs = text ++ rest ∧ kind.Writes text

theorem startsToken_cons_iff {c : Char} {cs : List Char} :
    StartsToken (c :: cs) ↔ ∃ kind : TokenKind, kind.Begins c := by
  constructor
  · rintro ⟨kind, text, rest, hcs, d, ds, rfl, hd, -⟩
    obtain ⟨rfl, -⟩ := List.cons.inj hcs
    exact ⟨kind, hd⟩
  · rintro ⟨kind, hkind⟩
    exact ⟨kind, [c], cs, rfl, c, [], rfl, hkind, List.forall_mem_nil _⟩

/-! ### The three sights -/

namespace Cursor

variable {cs filler rest : List Char} {offset : ℕ}

/-- Filler in front of a cursor does not matter. -/
theorem scan_filler (h : IsFiller filler rest) (offset : ℕ) :
    scan ⟨filler ++ rest, offset⟩ = scan ⟨rest, offset + Text.byteLength filler⟩ := by
  simp only [scan, skip, skipFrom_filler h]

theorem scan_nil (offset : ℕ) : scan ⟨[], offset⟩ = .finished := rfl

/-- A text is read as a token if the next character does not go on with it. -/
theorem scan_of_writes {kind : TokenKind} {text rest : List Char} (hwrites : kind.Writes text)
    (hrest : ∀ c ∈ rest.head?, ¬ kind.GoesOn c) (offset : ℕ) :
    scan ⟨text ++ rest, offset⟩ = .token ⟨kind, String.ofList text, offset⟩
      ⟨rest, offset + Text.byteLength text⟩ := by
  have hspelled : Lexeme.IsSpelled ⟨kind, String.ofList text⟩ :=
    TokenKind.spells_iff_writes.2 (by rwa [String.toList_ofList])
  have hstop : ∀ c ∈ rest.head?, kind.continues c = false := fun c hc => by
    rw [← Bool.not_eq_true, TokenKind.continues_iff]
    exact hrest c hc
  simpa using scan_of_isSpelled hspelled hstop offset

theorem scan_of_not_starts {c : Char} (hfiller : ¬ StartsFiller (c :: cs))
    (htoken : ¬ StartsToken (c :: cs)) (offset : ℕ) :
    scan ⟨c :: cs, offset⟩ = .unrecognised ⟨offset, offset + c.utf8Size⟩ ⟨c :: cs, offset⟩ := by
  have hkind : tokenKind? c = none := by
    rw [Option.eq_none_iff_forall_not_mem]
    intro kind h
    exact htoken (startsToken_cons_iff.2 ⟨kind, TokenKind.tokenKind?_eq_some_iff.1 h⟩)
  simp only [scan, skip, skipFrom_of_not_startsFiller hfiller, hkind]

/-- Characters that begin with a token are its text, as long as it goes on, and the rest. -/
theorem exists_writes {kind : TokenKind} {c : Char} (h : kind.Begins c) (cs : List Char) :
    ∃ text rest, c :: cs = text ++ rest ∧ kind.Writes text ∧ ∀ d ∈ rest.head?, ¬ kind.GoesOn d := by
  refine ⟨c :: cs.takeWhile kind.continues, cs.dropWhile kind.continues, ?_,
    ⟨c, _, rfl, h, fun d hd => ?_⟩, fun d hd => ?_⟩
  · rw [List.cons_append, List.takeWhile_append_dropWhile]
  · exact TokenKind.continues_iff.1 (List.mem_takeWhile_imp hd)
  · rw [← TokenKind.continues_iff]
    exact not_of_mem_head?_dropWhile hd

/-- The three sights of a text that begins at the offset. -/
inductive Sees (offset : ℕ) : List Char → Scan → Prop
  | finished {filler : List Char} (hfiller : IsFiller filler []) : Sees offset filler .finished
  | token {kind : TokenKind} {filler text rest : List Char} (hfiller : IsFiller filler (text ++ rest))
      (hwrites : kind.Writes text) (hrest : ∀ c ∈ rest.head?, ¬ kind.GoesOn c) :
      Sees offset (filler ++ (text ++ rest))
        (.token ⟨kind, String.ofList text, offset + Text.byteLength filler⟩
          ⟨rest, offset + Text.byteLength filler + Text.byteLength text⟩)
  | unrecognised {filler : List Char} {c : Char} {rest : List Char}
      (hfiller : IsFiller filler (c :: rest)) (hstop : ¬ StartsFiller (c :: rest))
      (htoken : ¬ StartsToken (c :: rest)) :
      Sees offset (filler ++ c :: rest)
        (.unrecognised
          ⟨offset + Text.byteLength filler, offset + Text.byteLength filler + c.utf8Size⟩
          ⟨c :: rest, offset + Text.byteLength filler⟩)

/-- Every text offers one of the sights. -/
theorem exists_sees (offset : ℕ) (cs : List Char) : ∃ sight, Sees offset cs sight := by
  obtain ⟨filler, rest, rfl, hfiller, hstop⟩ := exists_filler cs
  cases rest with
  | nil =>
    rw [List.append_nil]
    exact ⟨_, .finished hfiller⟩
  | cons c rest =>
    by_cases htoken : StartsToken (c :: rest)
    · obtain ⟨kind, hkind⟩ := startsToken_cons_iff.1 htoken
      obtain ⟨text, rest', heq, hwrites, hrest⟩ := exists_writes hkind rest
      rw [heq] at hfiller ⊢
      exact ⟨_, .token hfiller hwrites hrest⟩
    · exact ⟨_, .unrecognised hfiller hstop htoken⟩

/-- What a cursor sees is the sight that its text offers. -/
theorem scan_eq_iff {sight : Scan} : scan ⟨cs, offset⟩ = sight ↔ Sees offset cs sight := by
  have hscan : ∀ {sight}, Sees offset cs sight → scan ⟨cs, offset⟩ = sight := by
    intro sight h
    cases h with
    | finished hfiller =>
      have := scan_filler hfiller offset
      rwa [List.append_nil, scan_nil] at this
    | token hfiller hwrites hrest => rw [scan_filler hfiller, scan_of_writes hwrites hrest]
    | unrecognised hfiller hstop htoken =>
      rw [scan_filler hfiller, scan_of_not_starts hstop htoken]
  constructor
  · rintro rfl
    obtain ⟨sight, h⟩ := exists_sees offset cs
    rwa [hscan h]
  · exact hscan

theorem scan_eq_finished_iff : scan ⟨cs, offset⟩ = .finished ↔ IsFiller cs [] := by
  rw [scan_eq_iff]
  constructor
  · rintro (hfiller | _ | _)
    exact hfiller
  · exact .finished

theorem scan_eq_token_iff {token : Token} {next : Cursor} :
    scan ⟨cs, offset⟩ = .token token next ↔
      ∃ filler, cs = filler ++ (token.text.toList ++ next.rest) ∧
        IsFiller filler (token.text.toList ++ next.rest) ∧ token.kind.Writes token.text.toList ∧
        (∀ c ∈ next.rest.head?, ¬ token.kind.GoesOn c) ∧
        token.start = offset + Text.byteLength filler ∧ next.offset = token.span.stop := by
  rw [scan_eq_iff]
  constructor
  · intro h
    cases h with
    | @token kind filler text rest hfiller hwrites hrest =>
      simp only [String.toList_ofList]
      exact ⟨filler, rfl, hfiller, hwrites, hrest, rfl, by simp [Token.span]⟩
  · rintro ⟨filler, rfl, hfiller, hwrites, hrest, hstart, hnext⟩
    have h : Sees offset _ _ := .token hfiller hwrites hrest
    obtain ⟨kind, text, start⟩ := token
    obtain ⟨rest, stop⟩ := next
    dsimp only at hstart hnext
    subst hstart hnext
    simpa [Token.span] using h

theorem scan_eq_unrecognised_iff {span : Span} {stuck : Cursor} :
    scan ⟨cs, offset⟩ = .unrecognised span stuck ↔
      ∃ filler c rest, cs = filler ++ c :: rest ∧ IsFiller filler (c :: rest) ∧
        ¬ StartsFiller (c :: rest) ∧ ¬ StartsToken (c :: rest) ∧
        stuck = ⟨c :: rest, offset + Text.byteLength filler⟩ ∧
        span = ⟨stuck.offset, stuck.offset + c.utf8Size⟩ := by
  rw [scan_eq_iff]
  constructor
  · intro h
    cases h with
    | @unrecognised filler c rest hfiller hstop htoken =>
      exact ⟨filler, c, rest, rfl, hfiller, hstop, htoken, rfl, rfl⟩
  · rintro ⟨filler, c, rest, rfl, hfiller, hstop, htoken, rfl, rfl⟩
    exact .unrecognised hfiller hstop htoken

/-- What is not recognised stays so: the cursor in front of it sees the same again. -/
theorem scan_of_unrecognised {cursor stuck : Cursor} {span : Span}
    (h : cursor.scan = .unrecognised span stuck) : stuck.scan = .unrecognised span stuck := by
  obtain ⟨cs, offset⟩ := cursor
  obtain ⟨filler, c, rest, rfl, -, hfiller, htoken, rfl, rfl⟩ := scan_eq_unrecognised_iff.1 h
  exact scan_of_not_starts hfiller htoken _

end Cursor

end Multiequation
