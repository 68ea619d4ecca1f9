/-!
# Sets of code points given by ranges

A character property is a list of closed ranges of code points in ascending
order. Membership walks the list and stops at the first range that starts
beyond the code point.
-/

namespace Multiequation.Unicode

/-- Whether `n` lies in one of the ascending closed ranges. -/
def covers : List (Nat × Nat) → Nat → Bool
  | [], _ => false
  | (lo, hi) :: rest, n => lo ≤ n && (n ≤ hi || covers rest n)

@[simp] theorem covers_nil (n : Nat) : covers [] n = false := rfl

@[simp] theorem covers_cons (lo hi : Nat) (rest : List (Nat × Nat)) (n : Nat) :
    covers ((lo, hi) :: rest) n = (decide (lo ≤ n) && (decide (n ≤ hi) || covers rest n)) := rfl

/-- Every code point that a list covers lies in one of its ranges. -/
theorem exists_mem_of_covers {ranges : List (Nat × Nat)} {n : Nat} (h : covers ranges n = true) :
    ∃ r ∈ ranges, r.1 ≤ n ∧ n ≤ r.2 := by
  induction ranges with
  | nil => simp at h
  | cons r rest ih =>
    obtain ⟨lo, hi⟩ := r
    simp only [covers_cons, Bool.and_eq_true, Bool.or_eq_true, decide_eq_true_eq] at h
    obtain ⟨hlo, hhi | hrest⟩ := h
    · exact ⟨(lo, hi), by simp, hlo, hhi⟩
    · obtain ⟨r, hr, hn⟩ := ih hrest
      exact ⟨r, by simp [hr], hn⟩

end Multiequation.Unicode
