import Multiequation.Proofs.Relational.Streams
import Multiequation.Relational.Goal

/-!
# The depth of an answer

An answer of a stream has a place, counted from zero, and a depth: the number of suspensions that are
forced before it appears. Merging puts an answer behind those answers of the other stream that come
first, and behind the suspensions of the other stream that were forced in turn with its own. So the
depth of an answer of the first stream is at most doubled, and that of an answer of the second one is
at most one more than doubled, however long and however deep the streams are.
-/

namespace Multiequation.Relational.Answers

variable {θ α : Type} {resume : θ → Answers θ α} {s t : Answers θ α} {i i' k k' : ℕ} {a b : α}

/-! ### Places and depths -/

/-- The answer at place `i` is `a`, and `k` suspensions are forced before it appears. -/
inductive AppearsAt (resume : θ → Answers θ α) : Answers θ α → ℕ → ℕ → α → Prop
  | here {a : α} {s : Answers θ α} : AppearsAt resume (.mature a s) 0 0 a
  | later {a b : α} {s : Answers θ α} {i k : ℕ} : AppearsAt resume s i k a →
      AppearsAt resume (.mature b s) (i + 1) k a
  | forced {a : α} {p : Suspension θ α} {i k : ℕ} : AppearsAt resume (p.force resume) i k a →
      AppearsAt resume (.immature p) i (k + 1) a

/-- There is one answer at a place, and it has one depth. -/
theorem AppearsAt.unique (h : AppearsAt resume s i k a) (h' : AppearsAt resume s i k' b) :
    k = k' ∧ a = b := by
  induction h generalizing k' with
  | here => cases h' with | here => exact ⟨rfl, rfl⟩
  | later _ ih => cases h' with | later h' => exact ih h'
  | forced _ ih =>
    cases h' with
    | forced h' =>
      obtain ⟨rfl, rfl⟩ := ih h'
      exact ⟨rfl, rfl⟩

/-- Induction over the answers before the first suspension. -/
@[elab_as_elim]
theorem front_induction {P : Answers θ α → Prop} (empty : P .empty)
    (mature : ∀ a s, P s → P (.mature a s)) (immature : ∀ p, P (.immature p)) : ∀ s, P s
  | .empty => empty
  | .mature a s => mature a s (front_induction empty mature immature s)
  | .immature p => immature p

/-! ### What comes before a depth -/

/-- Counts `x` for each answer before the first suspension, and what `rest` says for that. -/
def countFront (x : ℕ) (rest : Suspension θ α → ℕ) : Answers θ α → ℕ
  | .empty => 0
  | .mature _ s => s.countFront x rest + x
  | .immature p => rest p

/-- Counts `x` for each answer less than `k` deep and `y` for each of the first `k` suspensions. -/
def countBefore (resume : θ → Answers θ α) (x y : ℕ) : ℕ → Answers θ α → ℕ
  | 0 => fun _ => 0
  | k + 1 => countFront x fun p => countBefore resume x y k (p.force resume) + y

/-- The number of answers less than `k` deep. -/
def answersBefore (resume : θ → Answers θ α) : ℕ → Answers θ α → ℕ := countBefore resume 1 0

/-- The number of suspensions, if there are less than `k`, else `k`. -/
def suspensionsBefore (resume : θ → Answers θ α) : ℕ → Answers θ α → ℕ := countBefore resume 0 1

section

variable {x y : ℕ}

@[simp] theorem countBefore_zero (s : Answers θ α) : countBefore resume x y 0 s = 0 := rfl

@[simp] theorem countBefore_empty (k : ℕ) : countBefore resume x y k .empty = 0 := by
  cases k <;> rfl

@[simp] theorem countBefore_mature (k : ℕ) (a : α) (s : Answers θ α) :
    countBefore resume x y (k + 1) (.mature a s) = countBefore resume x y (k + 1) s + x := rfl

@[simp] theorem countBefore_immature (k : ℕ) (p : Suspension θ α) :
    countBefore resume x y (k + 1) (.immature p) = countBefore resume x y k (p.force resume) + y :=
  rfl

theorem countBefore_mono (h : k ≤ k') (s : Answers θ α) :
    countBefore resume x y k s ≤ countBefore resume x y k' s := by
  induction k generalizing k' s with
  | zero => simp
  | succ k ih =>
    obtain ⟨k', rfl⟩ : ∃ j, k' = j + 1 := ⟨k' - 1, by omega⟩
    induction s using front_induction with
    | empty => simp
    | mature a s ihs => simpa using ihs
    | immature p => simpa using ih (by omega) (p.force resume)

end

theorem suspensionsBefore_le (k : ℕ) (s : Answers θ α) : suspensionsBefore resume k s ≤ k := by
  unfold suspensionsBefore
  induction k generalizing s with
  | zero => simp
  | succ k ih =>
    induction s using front_induction with
    | empty => simp
    | mature a s ihs => simpa using ihs
    | immature p => simpa using ih (p.force resume)

/-- The places of the answers that are `k` deep follow those of the answers that are less deep. -/
theorem AppearsAt.bounds (h : AppearsAt resume s i k a) :
    answersBefore resume k s ≤ i ∧ i < answersBefore resume (k + 1) s := by
  unfold answersBefore
  induction h with
  | here => simp
  | @later a b s i k _ ih => cases k <;> simp at ih ⊢ <;> omega
  | forced _ ih => simpa using ih

/-! ### Merging -/

/-- An answer of the second stream, if what holds for it in its own stream merged with any other holds
after the swap. -/
theorem AppearsAt.mplus_right_of_left
    (hleft : ∀ u, AppearsAt resume (t.mplus u) (i + answersBefore resume k u)
      (k + suspensionsBefore resume k u) a)
    (h : AppearsAt resume t i k a) (s : Answers θ α) :
    AppearsAt resume (s.mplus t) (i + answersBefore resume (k + 1) s)
      (k + suspensionsBefore resume (k + 1) s) a := by
  unfold answersBefore suspensionsBefore at *
  induction s using front_induction with
  | empty => simpa using h
  | mature b s ih => simpa [← Nat.add_assoc] using ih.later
  | immature p =>
    rw [countBefore_immature, countBefore_immature, ← Nat.add_assoc]
    exact (hleft (p.force resume)).forced

/-- An answer of the first stream that is `k` deep moves behind the answers and the suspensions of the
second stream before depth `k`. -/
theorem AppearsAt.mplus_left (h : AppearsAt resume s i k a) (t : Answers θ α) :
    AppearsAt resume (s.mplus t) (i + answersBefore resume k t)
      (k + suspensionsBefore resume k t) a := by
  induction h generalizing t with
  | here => exact .here
  | later _ ih => rw [Nat.add_right_comm]; exact (ih t).later
  | forced hp ih => rw [Nat.add_right_comm]; exact (AppearsAt.mplus_right_of_left ih hp t).forced

/-- An answer of the second stream that is `k` deep moves behind the answers of the first stream that
are at most as deep, and behind one suspension more than it has in front of itself. -/
theorem AppearsAt.mplus_right (h : AppearsAt resume t i k a) (s : Answers θ α) :
    AppearsAt resume (s.mplus t) (i + answersBefore resume (k + 1) s)
      (k + suspensionsBefore resume (k + 1) s) a :=
  .mplus_right_of_left h.mplus_left h s

/-! ### Fairness -/

/-- The depth of an answer of the first stream is at most doubled. -/
theorem AppearsAt.exists_mplus_left (h : AppearsAt resume s i k a) (t : Answers θ α) :
    ∃ j ≤ 2 * k, AppearsAt resume (s.mplus t) (i + answersBefore resume k t) j a := by
  have hle : suspensionsBefore resume k t ≤ k := suspensionsBefore_le k t
  exact ⟨_, by omega, h.mplus_left t⟩

/-- The depth of an answer of the second stream is at most doubled and increased by one. -/
theorem AppearsAt.exists_mplus_right (h : AppearsAt resume t i k a) (s : Answers θ α) :
    ∃ j ≤ 2 * k + 1,
      AppearsAt resume (s.mplus t) (i + answersBefore resume (k + 1) s) j a := by
  have hle : suspensionsBefore resume (k + 1) s ≤ k + 1 := suspensionsBefore_le (k + 1) s
  exact ⟨_, by omega, h.mplus_right s⟩

/-- Two answers of one stream keep their order when the same stream is merged with theirs: the earlier
one is not deeper. -/
theorem AppearsAt.place_lt (h : AppearsAt resume s i k a) (h' : AppearsAt resume s i' k' b)
    (hlt : i < i') (d : ℕ) (u : Answers θ α) :
    i + answersBefore resume (k + d) u < i' + answersBefore resume (k' + d) u := by
  have hk : k ≤ k' := by
    by_contra hk
    have hmono : answersBefore resume (k' + 1) s ≤ answersBefore resume k s :=
      countBefore_mono (by omega) s
    have hi := h.bounds
    have hi' := h'.bounds
    omega
  have hu : answersBefore resume (k + d) u ≤ answersBefore resume (k' + d) u :=
    countBefore_mono (by omega) u
  omega

/-- No answer of one stream takes the place of an answer of the other one. -/
theorem AppearsAt.place_ne (h : AppearsAt resume s i k a) (h' : AppearsAt resume t i' k' b) :
    i + answersBefore resume k t ≠ i' + answersBefore resume (k' + 1) s := by
  have hi := h.bounds
  have hi' := h'.bounds
  rcases le_or_gt k k' with hk | hk
  · have hs : answersBefore resume (k + 1) s ≤ answersBefore resume (k' + 1) s :=
      countBefore_mono (by omega) s
    have ht : answersBefore resume k t ≤ answersBefore resume k' t := countBefore_mono hk t
    omega
  · have hs : answersBefore resume (k' + 1) s ≤ answersBefore resume k s := countBefore_mono hk s
    have ht : answersBefore resume (k' + 1) t ≤ answersBefore resume k t := countBefore_mono hk t
    omega

/-- Merging any two streams is fair: an answer that is `k` deep in the first one is at most `2 * k` deep
in the merged stream, and one that is `k` deep in the second one at most `2 * k + 1`. All answers get
places of their own there, in the order of their streams. So no branch of a disjunction keeps an answer
of the other one waiting for longer. -/
theorem mplus_fair (s t : Answers θ α) :
    (∀ i k a, AppearsAt resume s i k a →
      ∃ j ≤ 2 * k, AppearsAt resume (s.mplus t) (i + answersBefore resume k t) j a) ∧
    (∀ i k a, AppearsAt resume t i k a →
      ∃ j ≤ 2 * k + 1,
        AppearsAt resume (s.mplus t) (i + answersBefore resume (k + 1) s) j a) ∧
    (∀ i k a i' k' b, AppearsAt resume s i k a → AppearsAt resume s i' k' b → i < i' →
      i + answersBefore resume k t < i' + answersBefore resume k' t) ∧
    (∀ i k a i' k' b, AppearsAt resume t i k a → AppearsAt resume t i' k' b → i < i' →
      i + answersBefore resume (k + 1) s < i' + answersBefore resume (k' + 1) s) ∧
    (∀ i k a i' k' b, AppearsAt resume s i k a → AppearsAt resume t i' k' b →
      i + answersBefore resume k t ≠ i' + answersBefore resume (k' + 1) s) ∧
    ∀ (relations : Relations) (scope : Scope) (left right : Goal) (state : State) i k answer,
      (AppearsAt (Job.resume relations) (left.apply relations scope state) i k answer →
        ∃ i', ∃ j ≤ 2 * k, AppearsAt (Job.resume relations)
          ((Goal.disj left right).apply relations scope state) i' j answer) ∧
      (AppearsAt (Job.resume relations) (right.apply relations scope state) i k answer →
        ∃ i', ∃ j ≤ 2 * k + 1, AppearsAt (Job.resume relations)
          ((Goal.disj left right).apply relations scope state) i' j answer) := by
  refine ⟨fun i k a h => h.exists_mplus_left t, fun i k a h => h.exists_mplus_right s,
    fun i k a i' k' b h h' hlt => h.place_lt h' hlt 0 t,
    fun i k a i' k' b h h' hlt => h.place_lt h' hlt 1 s,
    fun i k a i' k' b h h' => h.place_ne h', ?_⟩
  intro relations scope left right state i k answer
  rw [Goal.apply]
  exact ⟨fun h => ⟨_, h.exists_mplus_left _⟩, fun h => ⟨_, h.exists_mplus_right _⟩⟩

end Multiequation.Relational.Answers
