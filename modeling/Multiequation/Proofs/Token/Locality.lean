import Multiequation.Proofs.Token.Coverage

/-!
# What is read does not depend on what comes later

A token is told by its own characters and the first one behind it, and filler by its characters and the
first one behind it. So if a text is exchanged from some place on, but begins there with the same
character as before, the tokens that end in front of the place stay the same. What is seen at the place
itself is told by the character there, apart from a hyphen, which begins a comment if another one follows.
-/

namespace Multiequation

open Multiequation.Text

namespace Cursor

variable {cursor next last middle : Cursor} {tokens used more : List Token} {token : Token}
  {filler rest rest' after after' : List Char} {c : Char} {offset : ℕ} {span : Span}

/-! ### Runs -/

theorem Runs.exists_append (h : cursor.Runs (used ++ more) last) :
    ∃ middle, cursor.Runs used middle ∧ middle.Runs more last := by
  induction used generalizing cursor with
  | nil => exact ⟨cursor, .stop cursor, h⟩
  | cons token used ih =>
    cases h with
    | step htoken hnext =>
      obtain ⟨middle, hused, hmore⟩ := ih hnext
      exact ⟨middle, .step htoken hused, hmore⟩

/-- The tokens of a run come first, and the others are those that its last cursor sees. -/
theorem Runs.ofCursor_eq (h : cursor.Runs used middle) : TokenStream.ofCursor cursor =
    ⟨used ++ (TokenStream.ofCursor middle).tokens, (TokenStream.ofCursor middle).fault⟩ := by
  induction h with
  | stop cursor => rfl
  | @step cursor next middle token used htoken _ ih =>
    rw [TokenStream.ofCursor, htoken]
    dsimp only
    rw [ih]
    rfl

theorem ofCursor_of_token (h : cursor.scan = .token token next) : TokenStream.ofCursor cursor =
    ⟨token :: (TokenStream.ofCursor next).tokens, (TokenStream.ofCursor next).fault⟩ := by
  rw [TokenStream.ofCursor, h]

theorem ofCursor_of_unrecognised {stuck : Cursor} (h : cursor.scan = .unrecognised span stuck) :
    TokenStream.ofCursor cursor = ⟨[], some ⟨span⟩⟩ := by
  rw [TokenStream.ofCursor, h]

/-- What is behind a run may be exchanged if its first character stays. -/
theorem Runs.replace (h : cursor.Runs tokens last) (hhead : rest'.head? = last.rest.head?) :
    ∃ front, cursor.rest = front ++ last.rest ∧
      Runs ⟨front ++ rest', cursor.offset⟩ tokens ⟨rest', last.offset⟩ := by
  induction h with
  | stop cursor => exact ⟨[], rfl, .stop _⟩
  | @step cursor next last token tokens htoken _ ih =>
    obtain ⟨middle, hmiddle, hruns⟩ := ih hhead
    obtain ⟨cs, offset⟩ := cursor
    obtain ⟨filler, rfl, hfiller, hwrites, hmaximal, hstart, hstop⟩ := scan_eq_token_iff.1 htoken
    rw [hmiddle] at hfiller hmaximal
    have hbehind : (middle ++ rest').head? = (middle ++ last.rest).head? := by
      rw [List.head?_append, hhead, ← List.head?_append]
    have hfront : (token.text.toList ++ (middle ++ rest')).head? =
        (token.text.toList ++ (middle ++ last.rest)).head? := by
      rw [List.head?_append, hbehind, ← List.head?_append]
    refine ⟨filler ++ token.text.toList ++ middle, ?_, .step ?_ hruns⟩
    · rw [hmiddle]
      simp
    · refine scan_eq_token_iff.2 ⟨filler, ?_, hfiller.congr_head hfront, hwrites, ?_, hstart, hstop⟩
      · simp
      · rw [hbehind]
        exact hmaximal

/-! ### What is seen at a place -/

/-- A token is seen where there is filler and then a character that its kind begins with. Whatever
follows this character, a token of the same kind is seen there, and the same one if it is a mark. -/
theorem exists_scan_token (h : scan ⟨rest, offset⟩ = .token token next) : ∃ filler c after,
    rest = filler ++ c :: after ∧ token.start = offset + byteLength filler ∧
      ∀ after', ∃ token' next', scan ⟨filler ++ c :: after', offset⟩ = .token token' next' ∧
        token'.start = token.start ∧ token'.kind = token.kind ∧
        (token.kind = .punctuation → token'.text = token.text) := by
  obtain ⟨filler, rfl, hfiller, ⟨c, ds, htext, hc, hds⟩, -, hstart, -⟩ := scan_eq_token_iff.1 h
  rw [htext] at hfiller ⊢
  refine ⟨filler, c, ds ++ next.rest, rfl, hstart, fun after' => ?_⟩
  have hfiller' : IsFiller filler (c :: after') := hfiller.congr_head rfl
  obtain ⟨text', rest', heq, hwrites', hrest'⟩ := exists_writes hc after'
  have hscan : scan ⟨filler ++ c :: after', offset⟩ =
      .token ⟨token.kind, String.ofList text', offset + byteLength filler⟩
        ⟨rest', offset + byteLength filler + byteLength text'⟩ := by
    rw [scan_filler hfiller', heq, scan_of_writes hwrites' hrest']
  refine ⟨_, _, hscan, hstart.symm, rfl, fun hmark => ?_⟩
  -- a mark goes on with no character
  have halone : ∀ {es : List Char}, (∀ d ∈ es, token.kind.GoesOn d) → es = [] := by
    intro es hes
    rw [hmark] at hes
    exact List.eq_nil_iff_forall_not_mem.2 hes
  obtain ⟨d, es, rfl, -, hes⟩ := hwrites'
  obtain ⟨rfl, -⟩ := List.cons.inj heq
  have htext' : token.text.toList = [c] := by rw [htext, halone hds]
  show String.ofList (c :: es) = token.text
  rw [halone hes, ← htext', String.ofList_toList]

/-- A character that is not recognised is not recognised in front of other characters either, unless it
is a hyphen and a second one follows it. -/
theorem exists_scan_unrecognised {stuck : Cursor}
    (h : scan ⟨rest, offset⟩ = .unrecognised span stuck) : ∃ filler c after,
    rest = filler ++ c :: after ∧ span.start = offset + byteLength filler ∧
      ∀ after', ¬ (c = '-' ∧ after'.head? = some '-') →
        ∃ stuck', scan ⟨filler ++ c :: after', offset⟩ = .unrecognised span stuck' := by
  obtain ⟨filler, c, after, rfl, hfiller, hfirm, htoken, rfl, rfl⟩ := scan_eq_unrecognised_iff.1 h
  refine ⟨filler, c, after, rfl, rfl, fun after' hstop => ?_⟩
  have hfiller' : IsFiller filler (c :: after') := hfiller.congr_head rfl
  have hfirm' : ¬ StartsFiller (c :: after') := fun h =>
    (startsFiller_cons_iff.1 h).elim (fun hblank => hfirm (startsFiller_cons_iff.2 (.inl hblank))) hstop
  have htoken' : ¬ StartsToken (c :: after') := fun h =>
    htoken (startsToken_cons_iff.2 (startsToken_cons_iff.1 h))
  exact ⟨_, by rw [scan_filler hfiller', scan_of_not_starts hfirm' htoken']⟩

end Cursor

end Multiequation
