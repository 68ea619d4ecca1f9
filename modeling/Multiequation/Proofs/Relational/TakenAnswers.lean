import Multiequation.Proofs.Relational.Streams

/-!
# Taking answers

What is taken from a stream does not depend on the bound on the steps once the bound is large enough.
Taking all answers comes to an end for the finite streams, and merging them or passing their answers on
neither loses nor repeats one. Taking some answers of a finite stream gives a beginning of all of them.
-/

namespace Multiequation.Relational.Answers

variable {θ α : Type} {resume : θ → Answers θ α} {s t : Answers θ α} {l m : List α} {k k' n : ℕ}

/-- Taking all answers of the stream gives `l`, with every bound that is large enough. -/
def TakesAll (resume : θ → Answers θ α) (s : Answers θ α) (l : List α) : Prop :=
  ∃ k, ∀ k' ≥ k, takeAllWithin resume k' s = some l

/-- Taking `n` answers of the stream gives `l`, with every bound that is large enough. -/
def Takes (resume : θ → Answers θ α) (n : ℕ) (s : Answers θ α) (l : List α) : Prop :=
  ∃ k, ∀ k' ≥ k, takeWithin resume k' n s = some l

/-- A larger bound does not change what is taken. -/
theorem takeAllWithin_mono (h : takeAllWithin resume k s = some l) (hk : k ≤ k') :
    takeAllWithin resume k' s = some l := by
  induction k generalizing k' s l with
  | zero =>
    cases s with
    | empty => cases k' <;> exact h
    | _ => cases h
  | succ k ih =>
    obtain ⟨k', rfl⟩ : ∃ j, k' = j + 1 := ⟨k' - 1, by omega⟩
    cases s with
    | empty => exact h
    | mature a s =>
      rw [takeAllWithin] at h ⊢
      obtain ⟨l', hl', rfl⟩ := Option.map_eq_some_iff.1 h
      rw [ih hl' (by omega), Option.map_some]
    | immature p =>
      rw [takeAllWithin] at h ⊢
      exact ih h (by omega)

/-- All answers of the finite streams are taken, and of no others. -/
theorem takesAll_iff : TakesAll resume s l ↔ Yields resume s l := by
  constructor
  · rintro ⟨k, hk⟩
    exact yields_of_takeAllWithin (hk k le_rfl)
  · intro h
    obtain ⟨k, hk⟩ := h.takeAllWithin
    exact ⟨k, fun k' hk' => takeAllWithin_mono hk hk'⟩

theorem takes_zero (s : Answers θ α) : Takes resume 0 s [] :=
  ⟨0, fun k' _ => by cases k' <;> rfl⟩

theorem takes_empty (n : ℕ) : Takes resume n empty [] :=
  ⟨0, fun k' _ => by cases n <;> cases k' <;> rfl⟩

theorem Takes.mature (h : Takes resume n s l) (a : α) :
    Takes resume (n + 1) (.mature a s) (a :: l) := by
  obtain ⟨k, hk⟩ := h
  refine ⟨k + 1, fun k' hk' => ?_⟩
  obtain ⟨k', rfl⟩ : ∃ j, k' = j + 1 := ⟨k' - 1, by omega⟩
  rw [takeWithin, hk k' (by omega), Option.map_some]

theorem Takes.immature {p : Suspension θ α} (h : Takes resume (n + 1) (p.force resume) l) :
    Takes resume (n + 1) (.immature p) l := by
  obtain ⟨k, hk⟩ := h
  refine ⟨k + 1, fun k' hk' => ?_⟩
  obtain ⟨k', rfl⟩ : ∃ j, k' = j + 1 := ⟨k' - 1, by omega⟩
  rw [takeWithin, hk k' (by omega)]

/-- Taking `n` answers stops behind them, or at the end of the stream. -/
theorem Yields.takes (h : Yields resume s l) (n : ℕ) : Takes resume n s (l.take n) := by
  induction h generalizing n with
  | empty => rw [List.take_nil]; exact takes_empty n
  | @mature a s l _ ih =>
    cases n with
    | zero => exact takes_zero _
    | succ n => exact (ih n).mature a
  | immature _ ih =>
    cases n with
    | zero => exact takes_zero _
    | succ n => exact (ih (n + 1)).immature

/-- Merging two finite streams interleaves their answers. Passing the answers of a finite stream on to
finite streams gives all answers of these, in some order. Taking `n` answers gives the first `n`, or all
if there are fewer. -/
theorem answers_kept {next : α → Answers θ α} {f : α → List α} (hs : TakesAll resume s l)
    (ht : TakesAll resume t m) (hnext : ∀ a ∈ l, TakesAll resume (next a) (f a)) :
    (∃ r, TakesAll resume (s.mplus t) r ∧ Interleaved l m r) ∧
    (∃ r, TakesAll resume (s.bind next) r ∧ r.Perm (l.flatMap f)) ∧
    ∀ n, ∃ r, Takes resume n s r ∧ r <+: l ∧ r.length = min n l.length := by
  simp only [takesAll_iff] at hs ht hnext ⊢
  obtain ⟨r, hr, hmerged⟩ := hs.mplus ht
  obtain ⟨r', hr', hbound⟩ := hs.bind hnext
  refine ⟨⟨r, hmerged, hr⟩, ⟨r', hbound, hr'⟩, fun n => ⟨l.take n, hs.takes n, ?_, ?_⟩⟩
  · exact List.take_prefix n l
  · exact List.length_take

/-- The stream of the elements of a list that is suspended in front of each but the first. -/
def paced : List ℕ → Answers (List ℕ) ℕ
  | [] => .empty
  | n :: ns => .mature n (.immature (.delayed ns))

/-- Two paced streams, the first of them suspended at once, are merged, and each of its answers is passed
on to a paced stream. -/
theorem answers_kept_of_paced :
    TakesAll paced (.immature (.delayed [1, 2])) [1, 2] ∧ TakesAll paced (paced [3]) [3] ∧
    (∃ r, TakesAll paced ((immature (.delayed [1, 2])).mplus (paced [3])) r ∧
      Interleaved [1, 2] [3] r) ∧
    (∃ r, TakesAll paced ((immature (.delayed [1, 2])).bind fun n => paced [n, n + 10]) r ∧
      r.Perm [1, 11, 2, 12]) ∧
    ∀ n, ∃ r, Takes paced n (.immature (.delayed [1, 2])) r ∧ r <+: [1, 2] ∧ r.length = min n 2 := by
  have hs : TakesAll paced (.immature (.delayed [1, 2])) [1, 2] :=
    takesAll_iff.2 (yields_of_takeAllWithin (k := 5) rfl)
  have ht : TakesAll paced (paced [3]) [3] := takesAll_iff.2 (yields_of_takeAllWithin (k := 2) rfl)
  refine ⟨hs, ht, answers_kept (f := fun n => [n, n + 10]) hs ht fun n _ => ?_⟩
  exact takesAll_iff.2 (yields_of_takeAllWithin (k := 4) rfl)

end Multiequation.Relational.Answers
