import Mathlib.Data.List.Forall2
import Mathlib.Tactic

/-!
# Comparing lists, and removing elements

Two lists are compared element by element, by a relation that need be known for the elements of the
first one only. What is left of a list when duplicates are removed follows by an induction of its own,
and what is left when a beginning is removed does not begin in the same way.
-/

namespace Multiequation

/-! ### Element by element -/

section

variable {α β : Type} {R S : α → β → Prop} {as : List α} {bs : List β}

/-- Only the elements of the first list matter. -/
theorem forall₂_congr_mem (h : ∀ a ∈ as, ∀ b, R a b ↔ S a b) :
    List.Forall₂ R as bs ↔ List.Forall₂ S as bs := by
  induction as generalizing bs with
  | nil => simp
  | cons a as ih =>
    rw [List.forall_mem_cons] at h
    cases bs with
    | nil => simp
    | cons b bs => rw [List.forall₂_cons, List.forall₂_cons, h.1, ih h.2]

theorem forall₂_iff_map_eq {f : α → β} (h : ∀ a ∈ as, ∀ b, R a b ↔ f a = b) :
    List.Forall₂ R as bs ↔ as.map f = bs := by
  rw [forall₂_congr_mem h, ← List.forall₂_map_left_iff, List.forall₂_eq_eq_eq]

theorem exists_mem_of_forall₂ (h : List.Forall₂ R as bs) {a : α} (ha : a ∈ as) :
    ∃ b ∈ bs, R a b := by
  induction h with
  | nil => cases ha
  | cons hab _ ih =>
    rcases List.mem_cons.1 ha with rfl | ha
    · exact ⟨_, List.mem_cons_self, hab⟩
    · obtain ⟨b, hb, hr⟩ := ih ha
      exact ⟨b, List.mem_cons_of_mem _ hb, hr⟩

/-- Lists that are compared in both directions. -/
theorem forall₂_of_flip {S : β → α → Prop} {T : α → β → Prop}
    (h : ∀ a ∈ as, ∀ b, R a b → S b a → T a b) (hr : List.Forall₂ R as bs)
    (hs : List.Forall₂ S bs as) : List.Forall₂ T as bs := by
  induction hr with
  | nil => exact .nil
  | cons hab _ ih =>
    rw [List.forall_mem_cons] at h
    rw [List.forall₂_cons] at hs
    exact .cons (h.1 _ hab hs.1) (ih h.2 hs.2)

theorem exists_forall₂ (h : ∀ a ∈ as, ∃ b, R a b) : ∃ bs, List.Forall₂ R as bs := by
  induction as with
  | nil => exact ⟨[], .nil⟩
  | cons a as ih =>
    rw [List.forall_mem_cons] at h
    obtain ⟨⟨b, hb⟩, hrest⟩ := h
    obtain ⟨bs, hbs⟩ := ih hrest
    exact ⟨b :: bs, .cons hb hbs⟩

end

/-! ### Duplicates -/

section

variable {α : Type} [BEq α]

/-- Induction along the removal of duplicates: what follows an element is looked at without this
element. -/
@[elab_as_elim]
theorem eraseDups_induction {P : List α → Prop} (nil : P [])
    (cons : ∀ a as, P (as.filter fun b => !b == a) → P (a :: as)) (as : List α) : P as := by
  induction hn : as.length using Nat.strong_induction_on generalizing as with
  | _ n ih =>
    cases as with
    | nil => exact nil
    | cons a as =>
      refine cons a as (ih _ ?_ _ rfl)
      rw [← hn, List.length_cons]
      exact Nat.lt_succ_of_le (List.length_filter_le _ _)

theorem nodup_eraseDups [LawfulBEq α] (as : List α) : as.eraseDups.Nodup := by
  induction as using eraseDups_induction with
  | nil => exact .nil
  | cons a as ih =>
    rw [List.eraseDups_cons, List.nodup_cons, List.mem_eraseDups]
    exact ⟨by simp, ih⟩

end

/-! ### Beginnings -/

theorem not_of_mem_head?_dropWhile {α : Type} {p : α → Bool} {a : α} {as : List α}
    (h : a ∈ (as.dropWhile p).head?) : ¬ p a = true := by
  have := List.head?_dropWhile_not p as
  rw [h] at this
  simpa using this

end Multiequation
