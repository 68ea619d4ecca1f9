import Multiequation.Relational.Answers
import Mathlib.Tactic

/-!
# The answers of finite streams

A stream is finite when forcing its suspensions one after the other comes to an end. Merging two
finite streams gives a finite one whose answers are an interleaving of theirs, although the streams
change places at each suspension. Passing the answers of a finite stream on to finite streams gives a
finite one with the answers of all these streams.
-/

namespace Multiequation.Relational

variable {θ α : Type} {l m r : List α}

/-- The third list consists of the elements of the other two, each in its own order. -/
inductive Interleaved : List α → List α → List α → Prop
  | nil : Interleaved [] [] []
  | left {a : α} {l m r : List α} : Interleaved l m r → Interleaved (a :: l) m (a :: r)
  | right {b : α} {l m r : List α} : Interleaved l m r → Interleaved l (b :: m) (b :: r)

namespace Interleaved

theorem nil_left (m : List α) : Interleaved [] m m := by
  induction m with
  | nil => exact .nil
  | cons b m ih => exact .right ih

theorem symm (h : Interleaved l m r) : Interleaved m l r := by
  induction h with
  | nil => exact .nil
  | left _ ih => exact .right ih
  | right _ ih => exact .left ih

theorem perm (h : Interleaved l m r) : r.Perm (l ++ m) := by
  induction h with
  | nil => rfl
  | left _ ih => exact ih.cons _
  | right _ ih => exact (ih.cons _).trans List.perm_middle.symm

end Interleaved

namespace Answers

variable {resume : θ → Answers θ α} {s t : Answers θ α} {k : ℕ}

/-- The stream ends after the given answers. -/
inductive Yields (resume : θ → Answers θ α) : Answers θ α → List α → Prop
  | empty : Yields resume .empty []
  | mature {a : α} {s : Answers θ α} {l : List α} : Yields resume s l →
      Yields resume (.mature a s) (a :: l)
  | immature {p : Suspension θ α} {l : List α} : Yields resume (p.force resume) l →
      Yields resume (.immature p) l

theorem yields_of_takeAllWithin (h : takeAllWithin resume k s = some l) : Yields resume s l := by
  induction k generalizing s l with
  | zero =>
    cases s with
    | empty =>
      obtain rfl := Option.some.inj h
      exact .empty
    | _ => cases h
  | succ k ih =>
    cases s with
    | empty =>
      obtain rfl := Option.some.inj h
      exact .empty
    | mature a s =>
      obtain ⟨l', hl', rfl⟩ := Option.map_eq_some_iff.1 h
      exact .mature (ih hl')
    | immature p => exact .immature (ih h)

theorem Yields.takeAllWithin (h : Yields resume s l) :
    ∃ k, takeAllWithin resume k s = some l := by
  induction h with
  | empty => exact ⟨0, rfl⟩
  | mature _ ih =>
    obtain ⟨k, hk⟩ := ih
    exact ⟨k + 1, by rw [Answers.takeAllWithin, hk, Option.map_some]⟩
  | immature _ ih =>
    obtain ⟨k, hk⟩ := ih
    exact ⟨k + 1, by rw [Answers.takeAllWithin, hk]⟩

namespace Yields

theorem unit (a : α) : Yields resume (unit a) [a] := .mature .empty

/-- Merging interleaves the answers of two finite streams. -/
theorem mplus (hs : Yields resume s l) (ht : Yields resume t m) :
    ∃ r, Interleaved l m r ∧ Yields resume (s.mplus t) r := by
  induction hs generalizing t m with
  | empty => exact ⟨m, .nil_left m, ht⟩
  | mature _ ih =>
    obtain ⟨r, hr, hyields⟩ := ih ht
    exact ⟨_, hr.left, hyields.mature⟩
  | @immature p l hp ih =>
    -- the suspended stream waits until the other one is suspended in its turn
    suffices h : ∃ r, Interleaved m l r ∧ Yields resume (t.mplus (p.force resume)) r by
      obtain ⟨r, hr, hyields⟩ := h
      exact ⟨r, hr.symm, hyields.immature⟩
    induction ht with
    | empty => exact ⟨l, .nil_left l, hp⟩
    | mature _ iht =>
      obtain ⟨r, hr, hyields⟩ := iht
      exact ⟨_, hr.left, hyields.mature⟩
    | immature hq _ =>
      obtain ⟨r, hr, hyields⟩ := ih hq
      exact ⟨r, hr.symm, hyields.immature⟩

/-- Each answer of a finite stream is replaced by the answers it is passed on for. -/
theorem bind {next : α → Answers θ α} {f : α → List α} (hs : Yields resume s l)
    (hnext : ∀ a ∈ l, Yields resume (next a) (f a)) :
    ∃ r, r.Perm (l.flatMap f) ∧ Yields resume (s.bind next) r := by
  induction hs with
  | empty => exact ⟨[], .nil, .empty⟩
  | @mature a s l _ ih =>
    rw [List.forall_mem_cons] at hnext
    obtain ⟨r, hr, hyields⟩ := ih hnext.2
    obtain ⟨r', hr', hyields'⟩ := hnext.1.mplus hyields
    refine ⟨r', ?_, hyields'⟩
    rw [List.flatMap_cons]
    exact hr'.perm.trans (hr.append_left _)
  | immature _ ih =>
    obtain ⟨r, hr, hyields⟩ := ih hnext
    exact ⟨r, hr, hyields.immature⟩

end Yields

end Answers

end Multiequation.Relational
