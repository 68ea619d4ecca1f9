import Multiequation.Proofs.Text.Boundaries
import Multiequation.Proofs.Token.Scanning

/-!
# Tokens cover their source

Tokens are taken one after the other until a cursor sees the end or an unrecognised character. What one
step does is told in terms of the source: the token is a span of it, the text in front of the token is
filler, and the next cursor stands in the source again, right behind the token. By induction the same
holds of a whole run. So no part of a text is lost between the tokens, none is read twice, and a run that
does not reach the end stops in front of the first character that fits nowhere.
-/

namespace Multiequation

open Multiequation.Text

/-- Taking the tokens one after the other leads from the one cursor to the other. -/
inductive Cursor.Runs : Cursor → List Token → Cursor → Prop
  | stop (cursor : Cursor) : Runs cursor [] cursor
  | step {cursor next last : Cursor} {token : Token} {tokens : List Token}
      (htoken : cursor.scan = .token token next) (hnext : Runs next tokens last) :
      Runs cursor (token :: tokens) last

namespace Token

/-- The spans in front of each of the tokens, the first of them from `offset` on. -/
def gaps : ℕ → List Token → List Span
  | _, [] => []
  | offset, token :: tokens => ⟨offset, token.start⟩ :: gaps token.span.stop tokens

/-- The offset behind the last of the tokens, or `offset` if there is none. -/
def behind : ℕ → List Token → ℕ
  | offset, [] => offset
  | _, token :: tokens => behind token.span.stop tokens

end Token

namespace Source

/-- The cursor stands at a place of the source. -/
def HasCursor (source : Source) (cursor : Cursor) : Prop :=
  ∃ before, source.chars = before ++ cursor.rest ∧ cursor.offset = byteLength before

/-- The token is a span of the source, spelled as its kind demands, and it goes on for as long as its
kind can. -/
structure HasToken (source : Source) (token : Token) : Prop where
  hasSpan : source.hasSpan token.span = true
  textIn_eq : source.textIn token.span = token.text
  start_lt_stop : token.span.start < token.span.stop
  writes : token.kind.Writes token.text.toList
  maximal : ∀ c ∈ (charsFrom token.span.stop source.chars).head?, ¬ token.kind.GoesOn c

/-- The span of the source is filler. -/
structure HasFiller (source : Source) (span : Span) : Prop where
  hasSpan : source.hasSpan span = true
  isFiller : IsFiller (source.charsIn span) (charsFrom span.stop source.chars)

/-- The span is the one character at the first place from `offset` on at which neither filler nor a token
can begin: there is filler up to this place, and wherever a piece of it ends earlier, filler goes on. -/
def FirstUnrecognised (source : Source) (offset : ℕ) (span : Span) : Prop :=
  source.hasSpan span = true ∧ ∃ filler c rest,
    charsFrom offset source.chars = filler ++ c :: rest ∧
    span = ⟨offset + byteLength filler, offset + byteLength filler + c.utf8Size⟩ ∧
    IsFiller filler (c :: rest) ∧ ¬ StartsFiller (c :: rest) ∧ ¬ StartsToken (c :: rest) ∧
    ∀ piece follow, filler ++ c :: rest = piece ++ follow → IsFiller piece follow →
      piece ≠ filler → StartsFiller follow

variable {source : Source} {cursor next last : Cursor} {token : Token} {tokens : List Token}

theorem hasCursor_ofSource (source : Source) : source.HasCursor (.ofSource source) :=
  ⟨[], rfl, rfl⟩

theorem HasCursor.rest_eq (h : source.HasCursor cursor) :
    cursor.rest = charsFrom cursor.offset source.chars := by
  obtain ⟨before, hchars, hoffset⟩ := h
  rw [hchars, hoffset, charsFrom_byteLength]

/-- A character in front of which a cursor of the source stands is a span of the source. -/
theorem HasCursor.hasSpan {c : Char} {rest : List Char} {offset : ℕ}
    (h : source.HasCursor ⟨c :: rest, offset⟩) :
    source.hasSpan ⟨offset, offset + c.utf8Size⟩ = true := by
  obtain ⟨before, hchars, rfl⟩ := h
  have hsplit : source.chars = before ++ [c] ++ rest := by rw [hchars, List.append_assoc]; rfl
  simpa using hasSpan_eq hsplit

theorem HasCursor.filler {filler rest : List Char} {offset : ℕ}
    (h : source.HasCursor ⟨filler ++ rest, offset⟩) :
    source.HasCursor ⟨rest, offset + byteLength filler⟩ := by
  obtain ⟨before, hchars, rfl⟩ := h
  exact ⟨before ++ filler, by rw [hchars, List.append_assoc], (byteLength_append _ _).symm⟩

/-! ### One token -/

/-- What a step does: the token is one of the source, and there is nothing but filler in front of it. -/
theorem HasCursor.step (hcursor : source.HasCursor cursor) (h : cursor.scan = .token token next) :
    source.HasFiller ⟨cursor.offset, token.start⟩ ∧ source.HasToken token ∧
      source.HasCursor next ∧ cursor.offset ≤ token.start ∧ next.offset = token.span.stop := by
  obtain ⟨cs, offset⟩ := cursor
  obtain ⟨filler, rfl, hfiller, hwrites, hmaximal, hstart, hstop⟩ := Cursor.scan_eq_token_iff.1 h
  obtain ⟨before, hchars, hoffset⟩ := hcursor
  dsimp only at hchars hoffset
  subst hoffset
  -- the source falls into four parts: what was read, the filler, the token and what comes next
  have hfront : source.chars = before ++ filler ++ (token.text.toList ++ next.rest) := by
    rw [hchars, List.append_assoc]
  have htoken : source.chars = (before ++ filler) ++ token.text.toList ++ next.rest := by
    rw [hfront, List.append_assoc (before ++ filler)]
  have hspan : token.span = ⟨byteLength (before ++ filler),
      byteLength (before ++ filler) + byteLength token.text.toList⟩ := by
    rw [Token.span, hstart, byteLength_append]
  have hbehind : charsFrom token.span.stop source.chars = next.rest := by
    rw [hspan, htoken, ← byteLength_append, charsFrom_byteLength]
  refine ⟨⟨?_, ?_⟩, ⟨?_, ?_, ?_, hwrites, ?_⟩, ?_, ?_, hstop⟩
  · rw [hstart]
    exact hasSpan_eq hfront
  · show IsFiller (source.charsIn ⟨byteLength before, token.start⟩) (charsFrom token.start source.chars)
    have hbefore : charsFrom token.start source.chars = token.text.toList ++ next.rest := by
      rw [hstart, hfront, ← byteLength_append, charsFrom_byteLength]
    rw [hbefore, hstart, charsIn_eq hfront]
    exact hfiller
  · rw [hspan]
    exact hasSpan_eq htoken
  · rw [hspan, textIn, charsIn_eq htoken, String.ofList_toList]
  · have hpos : byteLength token.text.toList ≠ 0 := fun hzero =>
      hwrites.ne_nil (byteLength_eq_zero_iff.1 hzero)
    rw [hspan]
    dsimp only
    omega
  · rw [hbehind]
    exact hmaximal
  · refine ⟨before ++ filler ++ token.text.toList, htoken, ?_⟩
    rw [hstop, hspan, byteLength_append (before ++ filler)]
  · rw [hstart]
    exact Nat.le_add_right _ _

/-! ### All tokens -/

/-- What a whole run does. -/
structure Covers (source : Source) (cursor : Cursor) (tokens : List Token) (last : Cursor) : Prop where
  hasToken : ∀ token ∈ tokens, source.HasToken token
  hasFiller : ∀ gap ∈ Token.gaps cursor.offset tokens, source.HasFiller gap
  offset_le : ∀ token ∈ tokens, cursor.offset ≤ token.start
  ordered : tokens.Pairwise fun a b => a.span.start < b.span.start ∧ a.span.stop ≤ b.span.start
  hasLast : source.HasCursor last
  offset_last : last.offset = Token.behind cursor.offset tokens

theorem HasCursor.covers (hcursor : source.HasCursor cursor) (h : cursor.Runs tokens last) :
    source.Covers cursor tokens last := by
  induction h with
  | stop cursor => exact ⟨nofun, nofun, nofun, .nil, hcursor, rfl⟩
  | @step cursor next last token tokens htoken _ ih =>
    obtain ⟨hfiller, hfirst, hnext, hle, hstop⟩ := hcursor.step htoken
    have hrest := ih hnext
    have hpos := hfirst.start_lt_stop
    -- the later tokens begin behind this one
    have hlater : ∀ later ∈ tokens, token.span.stop ≤ later.span.start := fun later hlater => by
      have := hrest.offset_le later hlater
      rwa [hstop] at this
    refine ⟨List.forall_mem_cons.2 ⟨hfirst, hrest.hasToken⟩, ?_, ?_, ?_, hrest.hasLast, ?_⟩
    · have := hrest.hasFiller
      rw [hstop] at this
      exact List.forall_mem_cons.2 ⟨hfiller, this⟩
    · refine List.forall_mem_cons.2 ⟨hle, fun later hmem => ?_⟩
      have : token.start < token.span.stop := hpos
      have : token.span.stop ≤ later.start := hlater later hmem
      omega
    · refine List.pairwise_cons.2 ⟨fun later hmem => ⟨?_, hlater later hmem⟩, hrest.ordered⟩
      exact hpos.trans_le (hlater later hmem)
    · rw [hrest.offset_last, hstop]
      rfl

/-- All tokens that a cursor sees are those of a run, and the fault is what the run stops at. -/
theorem exists_runs (cursor : Cursor) :
    ∃ last, cursor.Runs (TokenStream.ofCursor cursor).tokens last ∧
      (last.scan = .finished ∧ (TokenStream.ofCursor cursor).fault = none ∨
        ∃ span stuck, last.scan = .unrecognised span stuck ∧
          (TokenStream.ofCursor cursor).fault = some ⟨span⟩) := by
  fun_induction TokenStream.ofCursor cursor with
  | case1 cursor h => exact ⟨cursor, .stop cursor, .inl ⟨h, rfl⟩⟩
  | case2 cursor span stuck h => exact ⟨cursor, .stop cursor, .inr ⟨span, stuck, h, rfl⟩⟩
  | case3 cursor token next h stream ih =>
    obtain ⟨last, hruns, hend⟩ := ih
    exact ⟨last, .step h hruns, hend⟩

/-- A cursor of the source that sees an unrecognised character sees the first one. -/
theorem HasCursor.firstUnrecognised {span : Span} {stuck : Cursor} (hcursor : source.HasCursor cursor)
    (h : cursor.scan = .unrecognised span stuck) :
    source.FirstUnrecognised cursor.offset span ∧
      stuck = ⟨charsFrom span.start source.chars, span.start⟩ := by
  have hrest := hcursor.rest_eq
  obtain ⟨cs, offset⟩ := cursor
  obtain ⟨filler, c, rest, rfl, hfiller, hstop, htoken, rfl, rfl⟩ :=
    Cursor.scan_eq_unrecognised_iff.1 h
  have hplace := hcursor.filler
  refine ⟨⟨hplace.hasSpan, filler, c, rest, hrest.symm, rfl, hfiller, hstop, htoken, ?_⟩, ?_⟩
  · intro piece follow heq hpiece hne
    obtain ⟨between, rfl, rfl, hbetween⟩ := exists_append_of_isFiller hfiller hstop hpiece heq
    -- what the piece lacks of the filler goes on behind it
    refine ⟨between, c :: rest, ?_, rfl, hbetween⟩
    rintro rfl
    exact hne (List.append_nil piece).symm
  · rw [← hplace.rest_eq]

/-- Reading all tokens of a source covers it exactly. The tokens are those that a cursor takes one after
the other from the beginning on: spans of the source in ascending order that do not overlap, each spelled
as its kind demands and as long as it can be, with nothing but filler in front of each. Either nothing but
filler follows them and the reading ends, or it stops in front of the first character at which neither
filler nor a token can begin, and stays there. -/
theorem tokens_cover_source (source : Source) :
    ∃ last,
      (Cursor.ofSource source).Runs (TokenStream.ofSource source).tokens last ∧
      (∀ token ∈ (TokenStream.ofSource source).tokens, source.HasToken token) ∧
      ((TokenStream.ofSource source).tokens.Pairwise fun a b =>
        a.span.start < b.span.start ∧ a.span.stop ≤ b.span.start) ∧
      (∀ gap ∈ Token.gaps 0 (TokenStream.ofSource source).tokens, source.HasFiller gap) ∧
      last.offset = Token.behind 0 (TokenStream.ofSource source).tokens ∧
      last.rest = charsFrom last.offset source.chars ∧
      (IsFiller last.rest [] ∧ last.scan = .finished ∧ (TokenStream.ofSource source).fault = none ∨
        ¬ IsFiller last.rest [] ∧ ∃ span stuck,
          last.scan = .unrecognised span stuck ∧
          (TokenStream.ofSource source).fault = some ⟨span⟩ ∧
          source.FirstUnrecognised last.offset span ∧
          stuck = ⟨charsFrom span.start source.chars, span.start⟩ ∧
          stuck.scan = .unrecognised span stuck) := by
  obtain ⟨last, hruns, hend⟩ := exists_runs (.ofSource source)
  have hcovers := (hasCursor_ofSource source).covers hruns
  refine ⟨last, hruns, hcovers.hasToken, hcovers.ordered, hcovers.hasFiller, hcovers.offset_last,
    hcovers.hasLast.rest_eq, ?_⟩
  rcases hend with ⟨hfinished, hfault⟩ | ⟨span, stuck, hstuck, hfault⟩
  · exact .inl ⟨Cursor.scan_eq_finished_iff.1 hfinished, hfinished, hfault⟩
  · obtain ⟨hfirst, hplace⟩ := hcovers.hasLast.firstUnrecognised hstuck
    refine .inr ⟨fun hfiller => ?_, span, stuck, hstuck, hfault, hfirst, hplace,
      Cursor.scan_of_unrecognised hstuck⟩
    rw [Cursor.scan_eq_finished_iff.2 hfiller] at hstuck
    cases hstuck

-- a letter of two bytes, a comment with nothing in front of it, and a hyphen that begins no comment
example : TokenStream.ofSource ⟨"<test>", "λx'-- f\n_1 -"⟩ =
    ⟨[⟨.atom, "λx'", 0⟩, ⟨.variable, "_1", 9⟩], some ⟨⟨12, 13⟩⟩⟩ := by decide +kernel

end Source

end Multiequation
