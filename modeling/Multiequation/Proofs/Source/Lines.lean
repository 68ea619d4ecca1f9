import Multiequation.Proofs.Lists
import Multiequation.Proofs.Text.Boundaries
import Mathlib.Data.List.DropRight

/-!
# Lines of a source

The table of a source holds zero and the offsets behind its newlines, so a beginning of the text has as
many entries behind it as it contains newlines, and all later entries are greater than its length. The
search in the table therefore finds the index of a line by counting newlines. A line is told by three
parts of the text: what is in front of it, which is empty or ends in a newline, the line itself, which
contains none, and what is behind it, which is empty or begins with one.
-/

namespace Multiequation

open Multiequation.Text

namespace Source

variable {source : Source} {head body tail left right before after : List Char} {offset n x : ℕ}

/-! ### The table -/

theorem behindNewlines_append (offset : ℕ) (cs ds : List Char) :
    behindNewlines offset (cs ++ ds) =
      behindNewlines offset cs ++ behindNewlines (offset + byteLength cs) ds := by
  induction cs generalizing offset with
  | nil => rfl
  | cons c cs ih =>
    simp only [List.cons_append, behindNewlines, byteLength_cons, ih, Nat.add_assoc]
    split <;> rfl

theorem length_behindNewlines (offset : ℕ) (cs : List Char) :
    (behindNewlines offset cs).length = cs.count '\n' := by
  induction cs generalizing offset with
  | nil => rfl
  | cons c cs ih =>
    unfold behindNewlines
    split
    · next h => rw [List.length_cons, ih, h, List.count_cons_self]
    · next h => rw [ih, List.count_cons_of_ne h]

theorem behindNewlines_eq_nil {cs : List Char} (h : '\n' ∉ cs) (offset : ℕ) :
    behindNewlines offset cs = [] := by
  rw [← List.length_eq_zero_iff, length_behindNewlines, List.count_eq_zero]
  exact h

theorem bounds_of_mem_behindNewlines {cs : List Char} (h : n ∈ behindNewlines offset cs) :
    offset < n ∧ n ≤ offset + byteLength cs := by
  induction cs generalizing offset with
  | nil => cases h
  | cons c cs ih =>
    have hpos := c.utf8Size_pos
    unfold behindNewlines at h
    rw [byteLength_cons]
    split at h
    · rcases List.mem_cons.1 h with rfl | h
      · omega
      · have := ih h
        omega
    · have := ih h
      omega

theorem pairwise_behindNewlines (offset : ℕ) (cs : List Char) :
    (behindNewlines offset cs).Pairwise (· < ·) := by
  induction cs generalizing offset with
  | nil => exact .nil
  | cons c cs ih =>
    unfold behindNewlines
    split
    · exact List.pairwise_cons.2 ⟨fun n hn => (bounds_of_mem_behindNewlines hn).1, ih _⟩
    · exact ih _

theorem pairwise_lineStarts (source : Source) : source.lineStarts.toList.Pairwise (· < ·) := by
  refine List.pairwise_cons.2 ⟨fun n hn => ?_, pairwise_behindNewlines _ _⟩
  exact (bounds_of_mem_behindNewlines hn).1

/-- Up to the length of a beginning there are the entries of its own newlines, and greater ones follow. -/
theorem lineStarts_eq (h : source.chars = before ++ after) : source.lineStarts.toList =
    (0 :: behindNewlines 0 before) ++ behindNewlines (byteLength before) after := by
  rw [lineStarts, h, behindNewlines_append, Nat.zero_add, List.cons_append]

/-! ### The search -/

/-- How many entries come up to what was searched for, told by the result of the search. -/
def countUpTo : Except ℕ ℕ → ℕ
  | .ok i => i + 1
  | .error i => i

theorem lt_countUpTo_search_iff {xs : Array ℕ} (hsorted : xs.toList.Pairwise (· < ·)) {x lo hi : ℕ}
    (hhi : hi ≤ xs.size) (hle : lo ≤ hi) (hbelow : ∀ j (h : j < xs.size), j < lo → xs[j] ≤ x)
    (habove : ∀ j (h : j < xs.size), hi ≤ j → x < xs[j]) (j : ℕ) :
    j < countUpTo (search xs x lo hi hhi) ↔ ∃ h : j < xs.size, xs[j] ≤ x := by
  have hmono : ∀ i j (hi : i < xs.size) (hj : j < xs.size), i < j → xs[i] < xs[j] :=
    fun i j hi hj hij => List.pairwise_iff_getElem.1 hsorted i j hi hj hij
  -- the entries below `lo` come up to `x`, those from `hi` on do not
  fun_induction search xs x lo hi hhi with
  | case1 lo hi hhi hlt hmid hcompare ih =>
    have hless := Nat.compare_eq_lt.1 hcompare
    refine ih (by omega) (fun j h hj => ?_) habove
    rcases Nat.lt_or_eq_of_le (Nat.le_of_lt_succ hj) with hj | rfl
    · exact ((hmono j _ h _ hj).trans hless).le
    · exact hless.le
  | case2 lo hi hhi hlt hmid hcompare =>
    have hfound := Nat.compare_eq_eq.1 hcompare
    show j < (lo + hi) / 2 + 1 ↔ _
    constructor
    · intro hj
      refine ⟨by omega, ?_⟩
      rcases Nat.lt_or_eq_of_le (Nat.le_of_lt_succ hj) with hj | rfl
      · exact (hmono j _ _ _ hj).le.trans hfound.le
      · exact hfound.le
    · rintro ⟨h, hj⟩
      by_contra hlater
      have := hmono ((lo + hi) / 2) j (by omega) h (by omega)
      omega
  | case3 lo hi hhi hlt hmid hcompare ih =>
    have hgreater := Nat.compare_eq_gt.1 hcompare
    refine ih (by omega) hbelow (fun j h hj => ?_)
    rcases Nat.lt_or_eq_of_le hj with hj | rfl
    · exact hgreater.trans (hmono _ j _ h hj)
    · exact hgreater
  | case4 lo hi hhi hlt =>
    show j < lo ↔ _
    constructor
    · intro hj
      exact ⟨by omega, hbelow j (by omega) hj⟩
    · rintro ⟨h, hj⟩
      by_contra hlater
      have := habove j h (by omega)
      omega

theorem lineIndex_eq_countUpTo (source : Source) (offset : ℕ) : source.lineIndex offset =
    countUpTo (search source.lineStarts offset 0 source.lineStarts.size (Nat.le_refl _)) - 1 := by
  unfold lineIndex
  cases search source.lineStarts offset 0 source.lineStarts.size (Nat.le_refl _) <;> rfl

/-- The line of an offset is the last that begins at it or before it. -/
theorem lineIndex_eq {low high : List ℕ} {start offset : ℕ}
    (htable : source.lineStarts.toList = low ++ start :: high) (hstart : start ≤ offset)
    (hhigh : ∀ y ∈ high, offset < y) : source.lineIndex offset = low.length := by
  have hcount := lt_countUpTo_search_iff source.pairwise_lineStarts (x := offset) (Nat.le_refl _)
    (Nat.zero_le _) (fun _ _ h => absurd h (Nat.not_lt_zero _)) (fun _ h h' => absurd h' (by omega))
  have hentry : ∀ j, source.lineStarts[j]? = (low ++ start :: high)[j]? := fun j => by
    rw [← htable, Array.getElem?_toList]
  have hlast : source.lineStarts[low.length]? = some start := by
    rw [hentry, List.getElem?_append_right (Nat.le_refl _), Nat.sub_self]
    rfl
  rw [lineIndex_eq_countUpTo]
  generalize countUpTo _ = count at hcount
  -- the entry at the end of `low` is counted, the next one is not
  have hlow : low.length < count := by
    obtain ⟨h, hstart'⟩ := Array.getElem?_eq_some_iff.1 hlast
    exact (hcount _).2 ⟨h, hstart' ▸ hstart⟩
  have hnext : ¬ low.length + 1 < count := by
    intro h
    obtain ⟨hsize, hle⟩ := (hcount _).1 h
    have hsome := Array.getElem?_eq_getElem hsize
    rw [hentry, List.getElem?_append_right (Nat.le_add_right _ 1), Nat.add_sub_cancel_left,
      List.getElem?_cons_succ] at hsome
    exact absurd hle (Nat.not_le.2 (hhigh _ (List.mem_of_getElem? hsome)))
  omega

/-! ### Lines -/

/-- The text is a line with what is in front of it and what is behind it. -/
structure IsLine (source : Source) (head body tail : List Char) : Prop where
  chars_eq : source.chars = head ++ body ++ tail
  begins : ∀ c ∈ head.getLast?, c = '\n'
  inside : '\n' ∉ body
  ends : ∀ c ∈ tail.head?, c = '\n'

/-- Every place lies in a line. -/
theorem isLine_of_split (h : source.chars = before ++ after) :
    source.IsLine (before.rdropWhile (· != '\n'))
      (before.rtakeWhile (· != '\n') ++ after.takeWhile (· != '\n'))
      (after.dropWhile (· != '\n')) := by
  refine ⟨?_, fun c hc => ?_, fun hmem => ?_, fun c hc => ?_⟩
  · rw [← List.append_assoc, List.rdropWhile_append_rtakeWhile, List.append_assoc,
      List.takeWhile_append_dropWhile, h]
  · obtain ⟨hne, rfl⟩ := List.mem_getLast?_eq_getLast hc
    simpa using List.rdropWhile_last_not _ _ hne
  · rcases List.mem_append.1 hmem with hmem | hmem
    · simpa using List.mem_rtakeWhile_imp hmem
    · simpa using List.mem_takeWhile_imp hmem
  · simpa using not_of_mem_head?_dropWhile hc

/-- The entry of a text that is empty or ends in a newline is the last one up to its length. -/
theorem exists_entries (h : ∀ c ∈ head.getLast?, c = '\n') :
    ∃ low, 0 :: behindNewlines 0 head = low ++ [byteLength head] ∧ low.length = head.count '\n' := by
  rcases List.eq_nil_or_concat head with rfl | ⟨front, c, rfl⟩
  · exact ⟨[], rfl, rfl⟩
  · obtain rfl : c = '\n' := h c (by simp)
    refine ⟨0 :: behindNewlines 0 front, ?_, ?_⟩
    · simp [behindNewlines_append, behindNewlines]
    · simp [length_behindNewlines]

namespace IsLine

theorem exists_table (h : source.IsLine head body tail) :
    ∃ low, low.length = head.count '\n' ∧ source.lineStarts.toList =
      low ++ byteLength head :: behindNewlines (byteLength head + byteLength body) tail := by
  obtain ⟨low, hlow, hlength⟩ := exists_entries h.begins
  have hsplit : source.chars = head ++ (body ++ tail) := by rw [h.chars_eq, List.append_assoc]
  refine ⟨low, hlength, ?_⟩
  rw [lineStarts_eq hsplit, hlow, behindNewlines_append, behindNewlines_eq_nil h.inside]
  simp

theorem lineIndex_eq (h : source.IsLine head (left ++ right) tail) :
    source.lineIndex (byteLength head + byteLength left) = head.count '\n' := by
  obtain ⟨low, hlength, htable⟩ := h.exists_table
  rw [← hlength]
  refine Source.lineIndex_eq htable (Nat.le_add_right _ _) (fun y hy => ?_)
  have := (bounds_of_mem_behindNewlines hy).1
  rw [byteLength_append] at this
  omega

theorem lineStarts_getElem? (h : source.IsLine head body tail) :
    source.lineStarts[head.count '\n']? = some (byteLength head) := by
  obtain ⟨low, hlength, htable⟩ := h.exists_table
  rw [← Array.getElem?_toList, htable, ← hlength, List.getElem?_append_right (Nat.le_refl _),
    Nat.sub_self]
  rfl

/-- The next line begins behind the newline, if there is one. -/
theorem lineStarts_getElem?_succ (h : source.IsLine head body tail) :
    source.lineStarts[head.count '\n' + 1]? =
      tail.head?.map fun _ => byteLength head + byteLength body + 1 := by
  obtain ⟨low, hlength, htable⟩ := h.exists_table
  rw [← Array.getElem?_toList, htable, ← hlength, List.getElem?_append_right (Nat.le_add_right _ 1),
    Nat.add_sub_cancel_left, List.getElem?_cons_succ]
  cases tail with
  | nil => rfl
  | cons c tail =>
    obtain rfl : c = '\n' := h.ends c rfl
    rfl

theorem lineSpan?_eq (h : source.IsLine head body tail) : source.lineSpan? (head.count '\n') =
    some ⟨byteLength head, byteLength head + byteLength body⟩ := by
  unfold lineSpan?
  rw [h.lineStarts_getElem?, h.lineStarts_getElem?_succ]
  cases tail with
  | nil =>
    have hsize : source.size = byteLength head + byteLength body := by
      simpa using size_eq h.chars_eq
    simp [hsize]
  | cons c tail =>
    simp only [List.head?_cons, Option.map_some]
    rw [if_pos (by omega), Nat.add_sub_cancel]

theorem hasSpan (h : source.IsLine head body tail) :
    source.hasSpan ⟨byteLength head, byteLength head + byteLength body⟩ = true :=
  hasSpan_eq h.chars_eq

theorem line_eq (h : source.IsLine head body tail) :
    source.line (head.count '\n' + 1) = String.ofList (dropCarriageReturn body) := by
  simp only [line, h.lineSpan?_eq, charsIn_eq h.chars_eq]

theorem min_size (h : source.IsLine head (left ++ right) tail) :
    min (byteLength head + byteLength left) source.size = byteLength head + byteLength left := by
  have hsize := size_eq h.chars_eq
  simp only [byteLength_append] at hsize
  omega

theorem spanInLine_eq (h : source.IsLine head (left ++ right) tail) :
    source.spanInLine (byteLength head + byteLength left) =
      ⟨byteLength head, byteLength head + byteLength left⟩ := by
  simp only [spanInLine, h.min_size, h.lineIndex_eq, h.lineStarts_getElem?, Option.getD_some]

/-- The position of a place counts the newlines in front of its line and the characters in front of it
within the line. -/
theorem positionAt?_eq (h : source.IsLine head (left ++ right) tail) :
    source.positionAt? (byteLength head + byteLength left) =
      some ⟨head.count '\n' + 1, left.length + 1⟩ := by
  have hsplit : source.chars = head ++ left ++ (right ++ tail) := by
    rw [h.chars_eq]
    simp
  unfold positionAt? positionAt
  rw [h.spanInLine_eq, if_pos (hasSpan_eq hsplit), charsIn_eq hsplit, h.min_size, h.lineIndex_eq]

end IsLine

/-- There is a place behind any number of newlines of a text. -/
theorem exists_split_count {cs : List Char} (h : n ≤ cs.count '\n') :
    ∃ before after, cs = before ++ after ∧ before.count '\n' = n := by
  induction cs generalizing n with
  | nil => exact ⟨[], [], rfl, (Nat.le_zero.1 h).symm⟩
  | cons c cs ih =>
    by_cases hc : c = '\n'
    · subst hc
      rcases Nat.eq_zero_or_pos n with rfl | hpos
      · exact ⟨[], _, rfl, rfl⟩
      · rw [List.count_cons_self] at h
        obtain ⟨before, after, rfl, hcount⟩ := ih (n := n - 1) (by omega)
        refine ⟨'\n' :: before, after, rfl, ?_⟩
        rw [List.count_cons_self]
        omega
    · rw [List.count_cons_of_ne hc] at h
      obtain ⟨before, after, rfl, hcount⟩ := ih h
      exact ⟨c :: before, after, rfl, by rw [List.count_cons_of_ne hc, hcount]⟩

theorem count_rdropWhile (before : List Char) :
    (before.rdropWhile (· != '\n')).count '\n' = before.count '\n' := by
  have hlast : (before.rtakeWhile (· != '\n')).count '\n' = 0 :=
    List.count_eq_zero.2 fun hmem => by simpa using List.mem_rtakeWhile_imp hmem
  conv_rhs => rw [← List.rdropWhile_append_rtakeWhile (p := (· != '\n')) (l := before)]
  rw [List.count_append, hlast, Nat.add_zero]

/-- The spans of all lines begin and end at boundaries. -/
theorem hasSpan_of_lineSpan? {index : ℕ} {span : Span} (h : source.lineSpan? index = some span) :
    source.hasSpan span = true := by
  have hindex : index < source.lineStarts.toList.length := by
    by_contra hge
    rw [Array.length_toList, not_lt] at hge
    rw [lineSpan?, Array.getElem?_eq_none hge] at h
    cases h
  have hcount : index ≤ source.chars.count '\n' := by
    rw [lineStarts, List.length_cons, length_behindNewlines] at hindex
    exact Nat.le_of_lt_succ hindex
  obtain ⟨before, after, hsplit, rfl⟩ := exists_split_count hcount
  have hline := isLine_of_split hsplit
  rw [← count_rdropWhile, hline.lineSpan?_eq] at h
  obtain rfl := Option.some.inj h
  exact hline.hasSpan

end Source

end Multiequation
