import Multiequation.Proofs.Source.Lines
import Multiequation.Proofs.Token.Coverage

/-!
# Positions and excerpts

The position of a place counts the newlines in front of it, and the characters since the last of them.
Both are read off the text in front of the place alone, so a later place has a later position. What is
shown of a span is the line that it begins on: if it ends on this line and in front of the line end, the
line contains it from its column on, and the carets stand under it. Tokens and unrecognised characters
are such spans, because no blank belongs to them, and newlines and carriage returns are blanks.
-/

namespace Multiequation

open Multiequation.Text Multiequation.Unicode

namespace Position

/-- The position behind the characters. -/
def behind (before : List Char) : Position where
  line := before.count '\n' + 1
  column := (before.rtakeWhile (· != '\n')).length + 1

/-- The position is on an earlier line, or on the same line and further left. -/
def Precedes (p q : Position) : Prop :=
  p.line < q.line ∨ p.line = q.line ∧ p.column < q.column

/-- More characters lead to a later position. -/
theorem behind_precedes (before : List Char) {between : List Char} (h : between ≠ []) :
    (behind before).Precedes (behind (before ++ between)) := by
  by_cases hnewline : '\n' ∈ between
  · have hcount : 0 < between.count '\n' := List.count_pos_iff.2 hnewline
    left
    simp only [behind, List.count_append]
    omega
  · have hcount : between.count '\n' = 0 := List.count_eq_zero.2 hnewline
    have hall : ∀ c ∈ between.reverse, (c != '\n') = true := fun c hc => by
      have : c ≠ '\n' := fun heq => hnewline (heq ▸ List.mem_reverse.1 hc)
      simpa using this
    have hlength := List.length_pos_iff.2 h
    right
    simp only [behind, List.count_append, List.rtakeWhile, List.reverse_append, List.length_reverse,
      List.takeWhile_append_of_pos hall, List.length_append]
    omega

end Position

/-- The spans of the tokens, and of the character that no token begins with. -/
def TokenStream.spans (stream : TokenStream) : List Span :=
  stream.tokens.map Token.span ++ stream.fault.toList.map LexError.span

namespace Source

/-- The excerpt of the span points at it: the line that the span begins on contains the characters of
the span from its column on, and there is one caret under each of them. -/
def PointsAt (source : Source) (span : Span) : Prop :=
  source.hasSpan span = true ∧ source.charsIn span ≠ [] ∧
    ∃ position left right, source.positionAt? span.start = some position ∧
      (source.line position.line).toList = left ++ source.charsIn span ++ right ∧
      left.length + 1 = position.column ∧
      source.excerpt span =
        s!"{source.name}:{position.line}:{position.column}\n" ++ source.line position.line ++ "\n" ++
          String.ofList (List.replicate (position.column - 1) ' ' ++
            List.replicate (source.charsIn span).length '^')

variable {source : Source} {before text after : List Char}

/-! ### Positions -/

theorem positionAt?_eq_behind (h : source.chars = before ++ after) :
    source.positionAt? (byteLength before) = some (.behind before) := by
  have hposition := (isLine_of_split h).positionAt?_eq
  rwa [← byteLength_append, List.rdropWhile_append_rtakeWhile, count_rdropWhile] at hposition

theorem positionAt_eq_of_positionAt? {offset : ℕ} {position : Position}
    (h : source.positionAt? offset = some position) : source.positionAt offset = position := by
  unfold positionAt? at h
  split at h
  · exact Option.some.inj h
  · cases h

/-- A later place has a later position. -/
theorem precedes_of_lt {offset offset' : ℕ} (h : isBoundary offset source.chars = true)
    (h' : isBoundary offset' source.chars = true) (hlt : offset < offset') :
    (source.positionAt offset).Precedes (source.positionAt offset') := by
  obtain ⟨before, after, hsplit, rfl⟩ := isBoundary_iff.1 h
  obtain ⟨before', after', hsplit', rfl⟩ := isBoundary_iff.1 h'
  obtain ⟨between, rfl, -⟩ := exists_between (hsplit.symm.trans hsplit') hlt.le
  have hne : between ≠ [] := by
    rintro rfl
    rw [List.append_nil] at hlt
    exact Nat.lt_irrefl _ hlt
  rw [positionAt_eq_of_positionAt? (positionAt?_eq_behind hsplit),
    positionAt_eq_of_positionAt? (positionAt?_eq_behind hsplit')]
  exact Position.behind_precedes before hne

/-! ### Excerpts -/

/-- A carriage return is dropped at the very end only. -/
theorem dropCarriageReturn_append {cs ds : List Char} (h : cs.getLast? ≠ some '\r') :
    dropCarriageReturn (cs ++ ds) = cs ++ dropCarriageReturn ds := by
  unfold dropCarriageReturn
  rcases List.eq_nil_or_concat ds with rfl | ⟨front, c, rfl⟩
  · simp [h]
  · rw [List.concat_eq_append, ← List.append_assoc, List.getLast?_concat, List.getLast?_concat,
      List.dropLast_concat, List.dropLast_concat]
    split <;> simp [List.append_assoc]

/-- A span that contains no line end is pointed at. -/
theorem pointsAt_of_split (h : source.chars = before ++ text ++ after) (hne : text ≠ [])
    (hblank : ∀ c ∈ text, isBlank c = false) :
    source.PointsAt ⟨byteLength before, byteLength before + byteLength text⟩ := by
  have hsplit : source.chars = before ++ (text ++ after) := by rw [h, List.append_assoc]
  have hnewline : ∀ c ∈ text, (c != '\n') = true := fun c hc => by
    have : c ≠ '\n' := by
      rintro rfl
      exact absurd (hblank _ hc) (by decide)
    simpa using this
  have hline := (isLine_of_split hsplit).line_eq
  rw [List.takeWhile_append_of_pos hnewline, ← List.append_assoc, count_rdropWhile] at hline
  -- the line goes on behind the span, so only what comes after it can lose a carriage return
  have hreturn : (before.rtakeWhile (· != '\n') ++ text).getLast? ≠ some '\r' := by
    rw [List.getLast?_append_of_ne_nil _ hne]
    intro hlast
    exact absurd (hblank _ (List.mem_of_getLast? hlast)) (by decide)
  rw [dropCarriageReturn_append hreturn] at hline
  have hposition := positionAt?_eq_behind hsplit
  have hmax : max 1 text.length = text.length := max_eq_right (List.length_pos_iff.2 hne)
  refine ⟨hasSpan_eq h, by rwa [charsIn_eq h], .behind before, before.rtakeWhile (· != '\n'),
    dropCarriageReturn (after.takeWhile (· != '\n')), hposition, ?_, rfl, ?_⟩
  · rw [charsIn_eq h]
    show (source.line (before.count '\n' + 1)).toList = _
    rw [hline, String.toList_ofList]
  · simp only [excerpt, positionAt_eq_of_positionAt? hposition, caretRow, charsIn_eq h, hmax]

/-- A span lies between two beginnings of the text. -/
theorem exists_split_of_hasSpan {span : Span} (h : source.hasSpan span = true) :
    ∃ before text after, source.chars = before ++ text ++ after ∧
      span = ⟨byteLength before, byteLength before + byteLength text⟩ := by
  obtain ⟨start, stop⟩ := span
  simp only [Source.hasSpan, Bool.and_eq_true, decide_eq_true_eq] at h
  obtain ⟨⟨hle, hstart⟩, hstop⟩ := h
  obtain ⟨before, rest, hbefore, rfl⟩ := isBoundary_iff.1 hstart
  obtain ⟨beginning, after, hbeginning, rfl⟩ := isBoundary_iff.1 hstop
  obtain ⟨text, rfl, -⟩ := exists_between (hbefore.symm.trans hbeginning) hle
  exact ⟨before, text, after, hbeginning, by rw [byteLength_append]⟩

theorem pointsAt_of_hasSpan {span : Span} (h : source.hasSpan span = true)
    (hne : source.charsIn span ≠ []) (hblank : ∀ c ∈ source.charsIn span, isBlank c = false) :
    source.PointsAt span := by
  obtain ⟨before, text, after, hsplit, rfl⟩ := exists_split_of_hasSpan h
  rw [charsIn_eq hsplit] at hne hblank
  exact pointsAt_of_split hsplit hne hblank

end Source

/-- No blank belongs to a token. -/
theorem TokenKind.Writes.not_isBlank {kind : TokenKind} {cs : List Char} (h : kind.Writes cs) :
    ∀ c ∈ cs, isBlank c = false := by
  obtain ⟨c, ds, rfl, hc, hds⟩ := h
  refine List.forall_mem_cons.2 ⟨?_, fun d hd => ?_⟩
  · rw [← Bool.not_eq_true]
    intro hblank
    have hkind := tokenKind?_of_isBlank hblank
    rw [tokenKind?_eq_some_iff.2 hc] at hkind
    cases hkind
  · rw [← Bool.not_eq_true]
    intro hblank
    have hname := isNameChar_of_isBlank hblank
    rw [isNameChar_of_continues (continues_iff.2 (hds d hd))] at hname
    cases hname

namespace Source

variable {source : Source}

theorem HasToken.charsIn_eq {token : Token} (h : source.HasToken token) :
    source.charsIn token.span = token.text.toList := by
  rw [← h.textIn_eq, textIn, String.toList_ofList]

theorem HasToken.pointsAt {token : Token} (h : source.HasToken token) : source.PointsAt token.span := by
  refine pointsAt_of_hasSpan h.hasSpan ?_ ?_ <;> rw [h.charsIn_eq]
  · exact h.writes.ne_nil
  · exact h.writes.not_isBlank

/-- A cursor of the source that sees an unrecognised character points at it. -/
theorem HasCursor.pointsAt {cursor stuck : Cursor} {span : Span} (hcursor : source.HasCursor cursor)
    (h : cursor.scan = .unrecognised span stuck) : source.PointsAt span := by
  obtain ⟨cs, offset⟩ := cursor
  obtain ⟨filler, c, rest, rfl, -, hfiller, -, rfl, rfl⟩ := Cursor.scan_eq_unrecognised_iff.1 h
  obtain ⟨before, hchars, hoffset⟩ := hcursor.filler
  dsimp only at hchars hoffset ⊢
  have hblank : isBlank c = false := by
    rw [startsFiller_cons_iff, not_or] at hfiller
    simpa using hfiller.1
  have hsplit : source.chars = before ++ [c] ++ rest := by rw [hchars, List.append_assoc]; rfl
  rw [hoffset]
  simpa using pointsAt_of_split hsplit (List.cons_ne_nil _ _) (List.forall_mem_singleton.2 hblank)

/-- Positions and excerpts point at the right text. A place in front of a character or at the end has
the position that counts the newlines in front of it and the characters since the last of them; later
places have later positions; every line is a part of the text that begins and ends at boundaries; and the
excerpt of every token, and of a character that no token begins with, shows it in its line with one caret
under each of its characters. -/
theorem positions_and_excerpts_exact (source : Source) :
    (∀ offset, isBoundary offset source.chars = true →
      source.positionAt? offset = some (.behind (charsBefore offset source.chars))) ∧
    (∀ offset offset', isBoundary offset source.chars = true → isBoundary offset' source.chars = true →
      offset < offset' → (source.positionAt offset).Precedes (source.positionAt offset')) ∧
    (∀ index span, source.lineSpan? index = some span → source.hasSpan span = true) ∧
    (∀ token ∈ (TokenStream.ofSource source).tokens, source.textIn token.span = token.text) ∧
    ∀ span ∈ (TokenStream.ofSource source).spans, source.PointsAt span := by
  obtain ⟨last, hruns, hend⟩ := exists_runs (.ofSource source)
  have hcovers := (hasCursor_ofSource source).covers hruns
  refine ⟨fun offset h => ?_, fun _ _ => precedes_of_lt, fun _ _ => hasSpan_of_lineSpan?,
    fun token htoken => (hcovers.hasToken token htoken).textIn_eq, fun span hspan => ?_⟩
  · obtain ⟨before, after, hsplit, rfl⟩ := isBoundary_iff.1 h
    have hbefore : charsBefore (byteLength before) source.chars = before := by
      rw [hsplit, charsBefore_byteLength]
    rw [hbefore]
    exact positionAt?_eq_behind hsplit
  · rcases List.mem_append.1 hspan with hspan | hspan
    · obtain ⟨token, htoken, rfl⟩ := List.mem_map.1 hspan
      exact (hcovers.hasToken token htoken).pointsAt
    · rcases hend with ⟨-, hfault⟩ | ⟨span', stuck, hstuck, hfault⟩
      · rw [TokenStream.ofSource, hfault] at hspan
        cases hspan
      · rw [TokenStream.ofSource, hfault] at hspan
        obtain rfl : span = span' := by simpa using hspan
        exact hcovers.hasLast.pointsAt hstuck

-- a carriage return in front of the newline, and letters of two bytes in front of the token
example : Source.excerpt ⟨"<test>", "X = a;\r\nλé = Λé;\r\n"⟩ ⟨15, 19⟩ =
    "<test>:2:6\nλé = Λé;\n     ^^" := by decide +kernel

end Source

end Multiequation
