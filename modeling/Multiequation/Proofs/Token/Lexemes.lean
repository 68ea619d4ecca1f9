import Multiequation.Token.Lexer
import Mathlib.Data.List.TakeWhile
import Mathlib.Tactic

/-!
# Lexemes

A lexeme is a token without its place. The characters of a lexeme are told by its kind: one that
begins the kind, then as many as the kind goes on with. Every token of a source is such a lexeme, and
an atom or numeral is the name of a symbol. Conversely a lexeme that is written in front of a character
that no name goes on with is read as one token, whatever blanks stand before it.
-/

namespace Multiequation

open Multiequation.Unicode

/-- A token without its place. -/
structure Lexeme where
  kind : TokenKind
  text : String
  deriving DecidableEq

/-- The lexeme of a punctuation mark. -/
def Lexeme.mark (c : Char) : Lexeme := ⟨.punctuation, c.toString⟩

/-- What a token is, apart from its place. -/
def Token.lexeme (token : Token) : Lexeme := ⟨token.kind, token.text⟩

@[simp] theorem Lexeme.mark_inj {c d : Char} : Lexeme.mark c = .mark d ↔ c = d := by
  simp only [mark, mk.injEq, true_and]
  refine ⟨fun h => ?_, congrArg Char.toString⟩
  simpa using congrArg String.toList h

theorem Token.isMark_iff {token : Token} {c : Char} :
    token.isMark c = true ↔ token.lexeme = .mark c := by
  simp [isMark, isPunctuation, lexeme, Lexeme.mark]

/-- Whether the text is spelled as the kind demands: a character that begins the kind, then characters
that it goes on with. -/
def TokenKind.spells (kind : TokenKind) (text : String) : Bool :=
  match text.toList with
  | [] => false
  | c :: cs => tokenKind? c == some kind && cs.all kind.continues

/-- The lexeme is spelled as its kind demands. -/
def Lexeme.IsSpelled (l : Lexeme) : Prop := l.kind.spells l.text = true

instance (l : Lexeme) : Decidable l.IsSpelled := inferInstanceAs (Decidable (_ = true))

theorem TokenKind.spells_iff {kind : TokenKind} {text : String} : kind.spells text = true ↔
    ∃ c cs, text.toList = c :: cs ∧ tokenKind? c = some kind ∧ ∀ d ∈ cs, kind.continues d = true := by
  rw [spells]
  cases text.toList with
  | nil => simp
  | cons c cs => simp

/-! ### Characters -/

theorem isNumber_of_isDigit {c : Char} (h : c.isDigit = true) : isNumber c = true := by
  simp only [Char.isDigit, Bool.and_eq_true, decide_eq_true_eq, ge_iff_le,
    UInt32.le_iff_toNat_le] at h
  have hc : 0x30 ≤ c.toNat ∧ c.toNat ≤ 0x39 := h
  rw [isNumber, numberRanges, covers_cons, decide_eq_true hc.1, decide_eq_true hc.2]
  rfl

/-- Whatever begins a variable, an atom or a numeral begins a name. -/
theorem isNameStart_of_tokenKind? {c : Char} {kind : TokenKind} (h : tokenKind? c = some kind)
    (hkind : kind = .atom ∨ kind = .numeral) : isNameStart c = true := by
  rw [tokenKind?] at h
  split_ifs at h with hv ha hd hp
  all_goals
    cases h
    simp_all [isNameStart, isNumber_of_isDigit]

theorem isNameChar_of_continues {c : Char} {kind : TokenKind} (h : kind.continues c = true) :
    isNameChar c = true := by
  cases kind with
  | «variable» => exact h
  | atom => exact h
  | numeral => simp [isNameChar, isNameStart, isNumber_of_isDigit h]
  | punctuation => cases h

/-- The blanks are few enough to be looked at one by one. -/
theorem forall_blank {P : ℕ → Prop}
    (h : ∀ r ∈ blankRanges, ∀ i < r.2 + 1 - r.1, P (r.1 + i)) {c : Char} (hc : isBlank c = true) :
    P c.toNat := by
  obtain ⟨r, hr, hlo, hhi⟩ := exists_mem_of_covers hc
  have := h r hr (c.toNat - r.1) (by omega)
  rwa [Nat.add_sub_cancel' hlo] at this

/-- No blank is part of a name. -/
theorem isNameChar_of_isBlank {c : Char} (h : isBlank c = true) : isNameChar c = false := by
  have hletter : covers alphabeticRanges c.toNat = false :=
    forall_blank (P := fun n => covers alphabeticRanges n = false) (by decide +kernel) h
  have hnumber : covers numberRanges c.toNat = false :=
    forall_blank (P := fun n => covers numberRanges n = false) (by decide +kernel) h
  have hmarks : c.toNat ≠ 0x5F ∧ c.toNat ≠ 0x27 :=
    forall_blank (P := fun n => n ≠ 0x5F ∧ n ≠ 0x27) (by decide +kernel) h
  have hunderscore : c ≠ '_' := by
    rintro rfl
    exact hmarks.1 rfl
  have hprime : c ≠ '\x27' := by
    rintro rfl
    exact hmarks.2 rfl
  simp [isNameChar, isNameStart, isAlphabetic, isNumber, hletter, hnumber, hunderscore, hprime]

/-- No blank begins a token. -/
theorem tokenKind?_of_isBlank {c : Char} (h : isBlank c = true) : tokenKind? c = none := by
  have hname := isNameChar_of_isBlank h
  have hupper : covers uppercaseRanges c.toNat = false :=
    forall_blank (P := fun n => covers uppercaseRanges n = false) (by decide +kernel) h
  have hmark : isPunctuationMark c = false := by
    rw [Bool.eq_false_iff]
    intro hmark
    simp only [isPunctuationMark, Bool.or_eq_true, beq_iff_eq] at hmark
    obtain (((rfl | rfl) | rfl) | rfl) | rfl := hmark <;> exact absurd h (by decide)
  simp only [isNameChar, isNameStart, Bool.or_eq_false_iff] at hname
  obtain ⟨⟨⟨hletter, hnumber⟩, hunderscore⟩, -⟩ := hname
  have hdigit : c.isDigit = false := by
    rw [Bool.eq_false_iff]
    exact fun hdigit => Bool.eq_false_iff.1 hnumber (isNumber_of_isDigit hdigit)
  simp [tokenKind?, isVariableStart, isUppercase, hupper, hletter, hunderscore, hdigit, hmark]

/-! ### Tokens of a source -/

/-- A token that is read is spelled as its kind demands. -/
theorem Cursor.isSpelled_of_scan {cursor next : Cursor} {token : Token}
    (h : cursor.scan = .token token next) : token.lexeme.IsSpelled := by
  rw [scan] at h
  split at h
  · cases h
  · next c cs offset _ =>
    split at h
    · next kind hkind =>
      cases h
      refine TokenKind.spells_iff.2 ⟨c, cs.takeWhile kind.continues, ?_, hkind, ?_⟩
      · exact String.toList_ofList
      · exact fun d hd => List.mem_takeWhile_imp hd
    · cases h

theorem TokenStream.isSpelled_of_mem (cursor : Cursor) :
    ∀ token ∈ (ofCursor cursor).tokens, token.lexeme.IsSpelled := by
  fun_induction ofCursor cursor with
  | case1 => simp
  | case2 => simp
  | case3 cursor token next h stream ih =>
    rw [List.forall_mem_cons]
    exact ⟨Cursor.isSpelled_of_scan h, ih⟩

/-- The text of an atom or a numeral is the name of a symbol. -/
theorem Lexeme.IsSpelled.exists_symbol {l : Lexeme} (h : l.IsSpelled)
    (hkind : l.kind = .atom ∨ l.kind = .numeral) : ∃ symbol, Symbol.ofString l.text = .ok symbol := by
  obtain ⟨c, cs, htext, hc, hcs⟩ := TokenKind.spells_iff.1 h
  have hname : isSymbolName l.text.toList = true := by
    rw [htext, isSymbolName_cons, isNameStart_of_tokenKind? hc hkind, Bool.true_and, List.all_eq_true]
    exact fun d hd => isNameChar_of_continues (hcs d hd)
  exact ⟨⟨l.text, hname⟩, Symbol.ofString_eq_ok_iff.2 rfl⟩

/-! ### Written lexemes -/

/-- Read from any offset on, the characters are these lexemes and nothing else. -/
def Written (cs : List Char) (ls : List Lexeme) : Prop :=
  ∀ offset, (TokenStream.ofCursor ⟨cs, offset⟩).tokens.map Token.lexeme = ls ∧
    (TokenStream.ofCursor ⟨cs, offset⟩).fault = none

/-- No name goes on with the first of the characters. -/
def EndsName (cs : List Char) : Prop := ∀ c ∈ cs.head?, isNameChar c = false

theorem endsName_nil : EndsName [] := nofun

theorem endsName_cons {c : Char} {cs : List Char} (h : isNameChar c = false) : EndsName (c :: cs) := by
  rintro d ⟨⟩
  exact h

theorem endsName_append_of_blank {bs cs : List Char} (hbs : ∀ b ∈ bs, isBlank b = true)
    (hcs : EndsName cs) : EndsName (bs ++ cs) := by
  cases bs with
  | nil => exact hcs
  | cons b bs => exact endsName_cons (isNameChar_of_isBlank (hbs b List.mem_cons_self))

theorem Cursor.skipFrom_of_blank {b : Char} (hb : isBlank b = true) (offset : ℕ) (cs : List Char) :
    skipFrom false offset (b :: cs) = skipFrom false (offset + b.utf8Size) cs := by
  rw [skipFrom]
  simp [hb]

/-- Nothing is skipped in front of a token. -/
theorem Cursor.skipFrom_of_tokenKind? {c : Char} {kind : TokenKind} (hc : tokenKind? c = some kind)
    (offset : ℕ) (cs : List Char) : skipFrom false offset (c :: cs) = ⟨c :: cs, offset⟩ := by
  have hblank : isBlank c = false := by
    rw [Bool.eq_false_iff]
    intro hblank
    rw [tokenKind?_of_isBlank hblank] at hc
    cases hc
  have hhyphen : c ≠ '-' := by
    rintro rfl
    have hnone : tokenKind? '-' = none := by decide
    rw [hnone] at hc
    cases hc
  rw [skipFrom]
  simp [hblank, hhyphen]

/-- A spelled lexeme is read up to where its kind does not go on. -/
theorem Cursor.scan_of_isSpelled {l : Lexeme} (h : l.IsSpelled) {rest : List Char}
    (hrest : ∀ c ∈ rest.head?, l.kind.continues c = false) (offset : ℕ) :
    scan ⟨l.text.toList ++ rest, offset⟩ =
      .token ⟨l.kind, l.text, offset⟩ ⟨rest, offset + Text.byteLength l.text.toList⟩ := by
  obtain ⟨c, cs, htext, hc, hcs⟩ := TokenKind.spells_iff.1 h
  have hstop : rest.takeWhile l.kind.continues = [] ∧ rest.dropWhile l.kind.continues = rest := by
    cases rest with
    | nil => exact ⟨rfl, rfl⟩
    | cons d rest => simp [hrest d rfl]
  have hlexeme : String.ofList (c :: cs) = l.text := by rw [← htext, String.ofList_toList]
  rw [scan, skip]
  dsimp only
  rw [htext, List.cons_append, skipFrom_of_tokenKind? hc]
  dsimp only
  rw [hc]
  simp only [readToken, List.takeWhile_append_of_pos hcs, List.dropWhile_append_of_pos hcs, hstop.1,
    hstop.2, List.append_nil, hlexeme]

namespace Written

variable {cs : List Char} {ls : List Lexeme}

/-- Blanks may stand in front. -/
theorem blanks (bs : List Char) (hbs : ∀ b ∈ bs, isBlank b = true) (h : Written cs ls) :
    Written (bs ++ cs) ls := by
  induction bs with
  | nil => exact h
  | cons b bs ih =>
    rw [List.forall_mem_cons] at hbs
    intro offset
    -- the cursors behind the blank and in front of it see the same
    have hscan : Cursor.scan ⟨b :: (bs ++ cs), offset⟩ =
        Cursor.scan ⟨bs ++ cs, offset + b.utf8Size⟩ := by
      simp only [Cursor.scan, Cursor.skip, Cursor.skipFrom_of_blank hbs.1]
    have := ih hbs.2 (offset + b.utf8Size)
    rw [TokenStream.ofCursor, List.cons_append, hscan]
    rwa [TokenStream.ofCursor] at this

theorem space (h : Written cs ls) : Written (' ' :: cs) ls :=
  blanks [' '] (List.forall_mem_singleton.2 rfl) h

theorem nil : Written [] [] := by
  intro offset
  rw [TokenStream.ofCursor]
  exact ⟨rfl, rfl⟩

theorem cons {l : Lexeme} (hl : l.IsSpelled) (hcs : ∀ c ∈ cs.head?, l.kind.continues c = false)
    (h : Written cs ls) : Written (l.text.toList ++ cs) (l :: ls) := by
  intro offset
  obtain ⟨htokens, hfault⟩ := h (offset + Text.byteLength l.text.toList)
  rw [TokenStream.ofCursor, Cursor.scan_of_isSpelled hl hcs]
  exact ⟨congrArg (l :: ·) htokens, hfault⟩

/-- A name is read up to where no name goes on. -/
theorem name {l : Lexeme} (hl : l.IsSpelled) (hcs : EndsName cs) (h : Written cs ls) :
    Written (l.text.toList ++ cs) (l :: ls) := by
  refine cons hl (fun c hc => ?_) h
  rw [Bool.eq_false_iff]
  intro hcontinues
  have := hcs c hc
  rw [isNameChar_of_continues hcontinues] at this
  cases this

/-- A punctuation mark stands for itself, whatever follows it. -/
theorem mark {c : Char} (hc : tokenKind? c = some .punctuation) (h : Written cs ls) :
    Written (c :: cs) (.mark c :: ls) := by
  have htext : (Lexeme.mark c).text.toList = [c] := by simp [Lexeme.mark]
  have hspelled : (Lexeme.mark c).IsSpelled :=
    TokenKind.spells_iff.2 ⟨c, [], htext, hc, List.forall_mem_nil _⟩
  have := cons hspelled (fun _ _ => rfl) h
  rwa [htext] at this

end Written

end Multiequation
