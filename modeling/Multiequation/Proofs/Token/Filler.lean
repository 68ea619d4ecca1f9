import Multiequation.Proofs.Lists
import Multiequation.Proofs.Token.Lexemes

/-!
# Filler between tokens

Filler is what may stand in front of a token: blanks and comments in any order, where a comment begins
with two hyphens and ends in front of the next newline or at the end of the text. Where a comment ends
depends on what stands behind it, so filler is a relation between characters and the characters that
follow them.

A cursor drops filler as a whole. Hence every text begins with one longest piece of filler, and what
stands behind it does not begin with filler any more. The last section settles that no later character
can make the piece longer.
-/

namespace Multiequation

open Multiequation.Unicode

/-- The characters in front of `rest` are blanks and comments, each comment running up to a newline that
it does not contain or up to the end of the text. -/
inductive IsFiller : List Char → List Char → Prop
  | nil {rest : List Char} : IsFiller [] rest
  | blank {c : Char} {cs rest : List Char} (hc : isBlank c = true) (hcs : IsFiller cs rest) :
      IsFiller (c :: cs) rest
  | comment {body cs rest : List Char} (hbody : '\n' ∉ body) (hend : ∀ c ∈ (cs ++ rest).head?, c = '\n')
      (hcs : IsFiller cs rest) : IsFiller ('-' :: '-' :: body ++ cs) rest

/-- The characters begin with a piece of filler. -/
def StartsFiller (cs : List Char) : Prop :=
  ∃ piece rest, piece ≠ [] ∧ cs = piece ++ rest ∧ IsFiller piece rest

namespace IsFiller

variable {piece filler cs rest rest' : List Char}

theorem append (hpiece : IsFiller piece (filler ++ rest)) (hfiller : IsFiller filler rest) :
    IsFiller (piece ++ filler) rest := by
  generalize hfollow : filler ++ rest = follow at hpiece
  induction hpiece with
  | nil => exact hfiller
  | blank hc _ ih => exact .blank hc (ih hfollow)
  | comment hbody hend _ ih =>
    subst hfollow
    rw [List.append_assoc]
    exact .comment hbody (by simpa using hend) (ih rfl)

/-- What follows filler matters through its first character only. -/
theorem congr_head (h : IsFiller filler rest) (hhead : rest'.head? = rest.head?) :
    IsFiller filler rest' := by
  induction h with
  | nil => exact .nil
  | blank hc _ ih => exact .blank hc (ih hhead)
  | comment hbody hend _ ih =>
    refine .comment hbody ?_ (ih hhead)
    rwa [List.head?_append, hhead, ← List.head?_append]

end IsFiller

theorem startsFiller_cons_iff {c : Char} {cs : List Char} :
    StartsFiller (c :: cs) ↔ isBlank c = true ∨ c = '-' ∧ cs.head? = some '-' := by
  constructor
  · rintro ⟨piece, rest, hpiece, hcs, hfiller⟩
    cases hfiller with
    | nil => exact absurd rfl hpiece
    | blank hc _ =>
      obtain ⟨rfl, -⟩ := List.cons.inj hcs
      exact .inl hc
    | comment =>
      obtain ⟨rfl, rfl⟩ := List.cons.inj hcs
      exact .inr ⟨rfl, rfl⟩
  · rintro (hc | ⟨rfl, hcs⟩)
    · exact ⟨[c], cs, List.cons_ne_nil _ _, rfl, .blank hc .nil⟩
    · obtain ⟨text, rfl⟩ : ∃ text, cs = '-' :: text := List.head?_eq_some_iff.1 hcs
      -- the comment that begins here runs as far as there is no newline
      refine ⟨'-' :: '-' :: text.takeWhile (· != '\n'), text.dropWhile (· != '\n'),
        List.cons_ne_nil _ _, ?_, ?_⟩
      · simp [List.takeWhile_append_dropWhile]
      · have hbody : '\n' ∉ text.takeWhile (· != '\n') := fun h => by
          simpa using List.mem_takeWhile_imp h
        have hend : ∀ c ∈ (text.dropWhile (· != '\n')).head?, c = '\n' := fun c hc => by
          simpa using not_of_mem_head?_dropWhile hc
        simpa using IsFiller.comment hbody hend .nil

/-! ### Dropping filler -/

namespace Cursor

variable {filler rest : List Char}

/-- Inside a comment the characters are dropped up to the end of the line. -/
theorem skipFrom_comment {body : List Char} (hbody : '\n' ∉ body) (hend : ∀ c ∈ rest.head?, c = '\n')
    (offset : ℕ) : skipFrom true offset (body ++ rest) =
      skipFrom false (offset + Text.byteLength body) rest := by
  induction body generalizing offset with
  | nil =>
    cases rest with
    | nil => rfl
    | cons c rest =>
      -- the newline ends the comment and is a blank as well
      obtain rfl : c = '\n' := hend c rfl
      have hblank : isBlank '\n' = true := by decide
      rw [List.nil_append, skipFrom, skipFrom_of_blank hblank]
      simp
  | cons c body ih =>
    rw [List.mem_cons, not_or] at hbody
    obtain ⟨hc, hbody⟩ := hbody
    have hnewline : (c != '\n') = true := by simpa using Ne.symm hc
    rw [List.cons_append, skipFrom, if_pos rfl, hnewline, ih hbody, Text.byteLength_cons,
      Nat.add_assoc]

theorem skipFrom_filler (h : IsFiller filler rest) (offset : ℕ) :
    skipFrom false offset (filler ++ rest) =
      skipFrom false (offset + Text.byteLength filler) rest := by
  induction h generalizing offset with
  | nil => rfl
  | blank hc _ ih =>
    rw [List.cons_append, skipFrom_of_blank hc, ih, Text.byteLength_cons, Nat.add_assoc]
  | @comment body cs rest hbody hend _ ih =>
    have hblank : isBlank '-' = false := by decide
    -- the second hyphen is dropped as the first character of the comment
    have hinside : '\n' ∉ '-' :: body := by
      rw [List.mem_cons, not_or]
      exact ⟨by decide, hbody⟩
    calc skipFrom false offset ('-' :: '-' :: body ++ cs ++ rest)
        = skipFrom true (offset + '-'.utf8Size) (('-' :: body) ++ (cs ++ rest)) := by
          simp [skipFrom, hblank]
      _ = skipFrom false (offset + '-'.utf8Size + Text.byteLength ('-' :: body) +
            Text.byteLength cs) rest := by
          rw [skipFrom_comment hinside hend, ih]
      _ = skipFrom false (offset + Text.byteLength ('-' :: '-' :: body ++ cs)) rest := by
          congr 1
          simp
          omega

/-- Nothing is dropped in front of what does not begin with filler. -/
theorem skipFrom_of_not_startsFiller (h : ¬ StartsFiller rest) (offset : ℕ) :
    skipFrom false offset rest = ⟨rest, offset⟩ := by
  cases rest with
  | nil => rfl
  | cons c cs =>
    rw [startsFiller_cons_iff, not_or] at h
    obtain ⟨hblank, hcomment⟩ := h
    unfold skipFrom
    rw [if_neg Bool.false_ne_true, if_neg hblank, if_neg hcomment]

end Cursor

/-! ### The longest filler -/

/-- Every text is filler and then something that does not begin with filler. -/
theorem exists_filler (cs : List Char) :
    ∃ filler rest, cs = filler ++ rest ∧ IsFiller filler rest ∧ ¬ StartsFiller rest := by
  induction hn : cs.length using Nat.strong_induction_on generalizing cs with
  | _ n ih =>
    by_cases hstart : StartsFiller cs
    · obtain ⟨piece, rest, hpiece, rfl, hfiller⟩ := hstart
      have hlength : rest.length < n := by
        have := List.length_pos_iff.2 hpiece
        rw [List.length_append] at hn
        omega
      obtain ⟨filler, rest, rfl, hrest, hstop⟩ := ih _ hlength rest rfl
      exact ⟨piece ++ filler, rest, by rw [List.append_assoc], hfiller.append hrest, hstop⟩
    · exact ⟨[], cs, rfl, .nil, hstart⟩

/-- Filler in front of anything is a beginning of the filler that nothing can make longer. -/
theorem exists_append_of_isFiller {filler rest piece follow : List Char} (h : IsFiller filler rest)
    (hstop : ¬ StartsFiller rest) (hpiece : IsFiller piece follow)
    (heq : filler ++ rest = piece ++ follow) :
    ∃ between, filler = piece ++ between ∧ follow = between ++ rest ∧ IsFiller between rest := by
  obtain ⟨between, rest', rfl, hbetween, hstop'⟩ := exists_filler follow
  -- the cursor that drops either filler stops in front of the same characters
  have hskip := Cursor.skipFrom_filler h 0
  rw [heq, Cursor.skipFrom_filler hpiece, Cursor.skipFrom_filler hbetween,
    Cursor.skipFrom_of_not_startsFiller hstop, Cursor.skipFrom_of_not_startsFiller hstop'] at hskip
  obtain ⟨rfl, -⟩ := Cursor.mk.inj hskip
  rw [← List.append_assoc] at heq
  exact ⟨between, List.append_cancel_right heq, rfl, hbetween⟩

end Multiequation
