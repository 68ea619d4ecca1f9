import Multiequation.Proofs.Partition.Classes

/-!
# Path compression

Finding a class walks along its forward links twice: once to the live class at their end, and once
more to point every link on the way at this class. Neither walk counts its steps, and the second one
changes the links it walks along and stops where the next class is the one it points at. Both walks
end, since some rank falls along every link, also along those that have been pointed elsewhere. What
can be seen of a partition is the same afterwards.
-/

namespace Multiequation.Partition

/-! ### Walks without a bound -/

/-- Following links from `id` for as long as there is one ends at `root`. -/
inductive LeadsTo (p : Partition) : ClassId → ClassId → Prop
  | live {id} : p.forward? id = none → LeadsTo p id id
  | link {id next root} : p.forward? id = some next → LeadsTo p next root → LeadsTo p id root

/-- The walk that points links at `root`, from `id` on, begins in the first partition and ends in the
second one. It stops at a class without a link, or where the link leads to `root` already. -/
inductive Compresses (root : ClassId) : ClassId → Partition → Partition → Prop
  | live {id p} : p.forward? id = none → Compresses root id p p
  | last {id p} : p.forward? id = some root → Compresses root id p (p.redirect id root)
  | link {id next p q} : p.forward? id = some next → next ≠ root →
      Compresses root next (p.redirect id root) q → Compresses root id p q

variable {p q r : Partition} {id next root : ClassId}

theorem Linked.leadsTo_iff (h : p.Linked) : p.LeadsTo id root ↔ root = p.resolve id := by
  constructor
  · intro hid
    induction hid with
    | live hf => rw [resolve_of_live hf]
    | link hf _ ih => rw [ih, h.resolve_of_forward? hf]
  · rintro rfl
    induction id using h.induction with
    | live id hf =>
      rw [resolve_of_live hf]
      exact .live hf
    | link id next hf ih =>
      rw [h.resolve_of_forward? hf]
      exact .link hf ih

/-- A walk that compresses links can end in one way only. -/
theorem Compresses.unique (hq : Compresses root id p q) (hr : Compresses root id p r) : q = r := by
  induction hq with
  | live hf =>
    cases hr with
    | live => rfl
    | last hf' => cases hf.symm.trans hf'
    | link hf' => cases hf.symm.trans hf'
  | last hf =>
    cases hr with
    | live hf' => cases hf.symm.trans hf'
    | last => rfl
    | link hf' hne => exact absurd (Option.some.inj (hf'.symm.trans hf)) hne
  | link hf hne _ ih =>
    cases hr with
    | live hf' => cases hf.symm.trans hf'
    | last hf' => exact absurd (Option.some.inj (hf.symm.trans hf')) hne
    | link hf' _ hrest =>
      cases hf.symm.trans hf'
      exact ih hrest

/-- A bound that the rank does not exceed lets the walk end. -/
theorem Linked.compresses_compressWithin (h : p.Linked) {rank : ClassId → ℕ}
    (hrank : ∀ {id next}, p.forward? id = some next → rank next < rank id) {n : ℕ}
    (hn : rank id ≤ n) : Compresses (p.resolve id) id p (compressWithin (p.resolve id) n id p) := by
  induction n generalizing p id with
  | zero => exact .live (forward?_eq_none_of_rank hrank hn)
  | succ n ih =>
    unfold compressWithin
    cases hf : p.forward? id with
    | none => exact .live hf
    | some next =>
      have hstep := h.relinked_redirect hf
      dsimp only
      split_ifs with hroot
      · exact .last (hroot ▸ hf)
      · -- the rest of the walk is one from `next`, among links that have the same ends as before
        have hnext : (p.redirect id (p.resolve id)).resolve next = p.resolve id := by
          rw [hstep.resolve, h.resolve_of_forward? hf]
        have hle : rank next ≤ n := Nat.le_of_lt_succ ((hrank hf).trans_le hn)
        have hrest := ih hstep.linked (h.rank_redirect hrank hf) hle
        rw [hnext] at hrest
        exact .link hf hroot hrest

/-- The walk that compresses links ends, and finding a class leaves what it ends in. -/
theorem Linked.compresses_iff (h : p.Linked) :
    Compresses (p.resolve id) id p q ↔ q = (p.find id).2 := by
  obtain ⟨rank, hrank, hle⟩ := h.exists_rank_le
  have hends : Compresses (p.resolve id) id p (p.find id).2 :=
    h.compresses_compressWithin hrank (hle id)
  constructor
  · exact fun hq => hq.unique hends
  · rintro rfl
    exact hends

/-! ### What can be seen -/

/-- All that can be asked about a partition without changing it. -/
structure View where
  varCount : ℕ
  classId? : ℕ → Option ClassId
  resolve : ClassId → ClassId
  owner? : Var → Option ClassId
  isLive : ClassId → Bool
  liveClasses : List ClassId
  classAt : ClassId → Class

/-- What can be seen of a partition. -/
def view (p : Partition) : View where
  varCount := p.varCount
  classId? := p.classId?
  resolve := p.resolve
  owner? := p.owner?
  isLive := p.isLive
  liveClasses := p.liveClasses
  classAt := p.classAt

theorem Similar.view (h : Similar p q) (hp : p.Linked) : q.view = p.view := by
  have hclassId : q.classId? = p.classId? := by
    funext i
    rw [classId?, classId?, h.size]
  simp only [Partition.view, h.varCount, hclassId, h.resolve, h.owner, isLive_congr hp h.linked h.resolve,
    h.liveClasses hp, h.classAt]

/-- Finding the class `id` ends with the live class behind it, whatever the bounds on the two walks,
and nobody can see that it happened. -/
structure FindsQuietly (p : Partition) (id : ClassId) : Prop where
  leadsTo : ∀ root, p.LeadsTo id root ↔ root = p.resolve id
  compresses : ∀ q, Compresses (p.resolve id) id p q ↔ q = (p.find id).2
  result : (p.find id).1 = p.resolve id
  live : p.isLive (p.resolve id) = true
  view : (p.find id).2.view = p.view

theorem Linked.findsQuietly (h : p.Linked) (id : ClassId) : p.FindsQuietly id where
  leadsTo _ := h.leadsTo_iff
  compresses _ := h.compresses_iff
  result := rfl
  live := h.isLive_iff.2 (h.resolve_resolve id)
  view := (h.similar_find id).view h

end Multiequation.Partition
