import Multiequation.Source
import Mathlib.Tactic

/-!
# Boundaries of a text

The boundaries of a text are the lengths of its beginnings in bytes. Every character has a byte at least,
so a beginning is told by its length, a later boundary belongs to a longer beginning, and the characters
between two boundaries are what the one beginning has more than the other.
-/

namespace Multiequation

namespace Text

variable {before between after cs ds : List Char} {offset n : ℕ}

@[simp] theorem byteLength_eq_zero_iff : byteLength cs = 0 ↔ cs = [] := by
  cases cs with
  | nil => simp
  | cons c cs =>
    have := c.utf8Size_pos
    simp
    omega

theorem charsBefore_cons {c : Char} (h : 0 < offset) :
    charsBefore offset (c :: cs) = c :: charsBefore (offset - c.utf8Size) cs := by
  obtain ⟨n, rfl⟩ := Nat.exists_eq_add_one_of_ne_zero h.ne'
  rfl

theorem charsFrom_cons {c : Char} (h : 0 < offset) :
    charsFrom offset (c :: cs) = charsFrom (offset - c.utf8Size) cs := by
  obtain ⟨n, rfl⟩ := Nat.exists_eq_add_one_of_ne_zero h.ne'
  rfl

theorem isBoundary_cons {c : Char} (h : 0 < offset) :
    isBoundary offset (c :: cs) = (decide (c.utf8Size ≤ offset) &&
      isBoundary (offset - c.utf8Size) cs) := by
  obtain ⟨n, rfl⟩ := Nat.exists_eq_add_one_of_ne_zero h.ne'
  rfl

/-- The length of a beginning splits the text behind it. -/
@[simp] theorem charsBefore_byteLength :
    charsBefore (byteLength before) (before ++ after) = before := by
  induction before with
  | nil => simp
  | cons c before ih =>
    have hpos := c.utf8Size_pos
    rw [byteLength_cons, List.cons_append, charsBefore_cons (by omega), Nat.add_sub_cancel_left, ih]

@[simp] theorem charsFrom_byteLength : charsFrom (byteLength before) (before ++ after) = after := by
  induction before with
  | nil => simp
  | cons c before ih =>
    have hpos := c.utf8Size_pos
    rw [byteLength_cons, List.cons_append, charsFrom_cons (by omega), Nat.add_sub_cancel_left, ih]

/-- The boundaries of a text are the lengths of its beginnings. -/
theorem isBoundary_iff : isBoundary offset cs = true ↔
    ∃ before after, cs = before ++ after ∧ offset = byteLength before := by
  constructor
  · intro h
    induction cs generalizing offset with
    | nil =>
      cases offset with
      | zero => exact ⟨[], [], rfl, rfl⟩
      | succ n => cases h
    | cons c cs ih =>
      rcases Nat.eq_zero_or_pos offset with rfl | hpos
      · exact ⟨[], c :: cs, rfl, rfl⟩
      · rw [isBoundary_cons hpos, Bool.and_eq_true, decide_eq_true_eq] at h
        obtain ⟨before, after, rfl, hlength⟩ := ih h.2
        refine ⟨c :: before, after, rfl, ?_⟩
        rw [byteLength_cons]
        omega
  · rintro ⟨before, after, rfl, rfl⟩
    induction before with
    | nil => simp
    | cons c before ih =>
      have hpos := c.utf8Size_pos
      rw [byteLength_cons, List.cons_append, isBoundary_cons (by omega)]
      simpa using ih

/-- A later boundary belongs to a longer beginning. -/
theorem exists_between (h : before ++ after = cs ++ ds) (hle : byteLength before ≤ byteLength cs) :
    ∃ between, cs = before ++ between ∧ after = between ++ ds := by
  rcases List.append_eq_append_iff.1 h with ⟨between, rfl, rfl⟩ | ⟨between, rfl, rfl⟩
  · exact ⟨between, rfl, rfl⟩
  · -- the longer beginning has no more bytes, so it is the same
    have : byteLength between = 0 := by
      rw [byteLength_append] at hle
      omega
    obtain rfl := byteLength_eq_zero_iff.1 this
    exact ⟨[], by simp, by simp⟩

end Text

namespace Source

open Multiequation.Text

variable {source : Source} {before between after : List Char}

theorem size_eq (h : source.chars = before ++ after) :
    source.size = byteLength before + byteLength after := by
  rw [size, h, byteLength_append]

/-- A span from one boundary to another holds the characters between them. -/
theorem charsIn_eq (h : source.chars = before ++ between ++ after) :
    source.charsIn ⟨byteLength before, byteLength before + byteLength between⟩ = between := by
  rw [charsIn, h, List.append_assoc, charsFrom_byteLength, Nat.add_sub_cancel_left,
    charsBefore_byteLength]

theorem hasSpan_eq (h : source.chars = before ++ between ++ after) :
    source.hasSpan ⟨byteLength before, byteLength before + byteLength between⟩ = true := by
  have hstart : isBoundary (byteLength before) source.chars = true :=
    isBoundary_iff.2 ⟨before, between ++ after, by rw [h, List.append_assoc], rfl⟩
  have hstop : isBoundary (byteLength before + byteLength between) source.chars = true :=
    isBoundary_iff.2 ⟨before ++ between, after, h, (byteLength_append _ _).symm⟩
  simp [hasSpan, hstart, hstop]

end Source

end Multiequation
