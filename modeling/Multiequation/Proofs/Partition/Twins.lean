import Multiequation.Proofs.Lockstep
import Multiequation.Proofs.Partition.Compression
import Multiequation.Proofs.Partition.Histories

/-!
# Partitions that look the same

Two partitions whose links differ may look the same. Whatever is done with both of them then gives the
same result or the same error, and afterwards they look the same again: which class absorbs which, which
multiterms are merged and which counts are lowered depends on what can be seen alone.
-/

namespace Multiequation.Partition

/-- Two partitions with `n` records, and with sound links, that look the same. -/
structure Twin (n : ℕ) (p q : Partition) : Prop extends Similar p q where
  linked_left : p.Linked
  size_left : p.records.size = n

variable {n : ℕ} {p q p' q' : Partition} {id root a b : ClassId} {v : Var} {cls : Class}

namespace Twin

theorem refl (h : p.Linked) : Twin p.records.size p p := ⟨.refl h, h, rfl⟩

theorem view_eq (h : Twin n p q) : q.view = p.view := h.toSimilar.view h.linked_left

/-- Both partitions may be replaced by such as look like them. -/
theorem similar (h : Twin n p q) (hp : Similar p p') (hq : Similar q q') : Twin n p' q' where
  toSimilar := ((hp.symm h.linked_left).trans h.toSimilar).trans hq
  linked_left := hp.linked
  size_left := hp.size.trans h.size_left

theorem updated (h : Twin n p q) (hp : Updated p p' root cls) (hq : Updated q q' root cls) :
    Twin n p' q' where
  size := hq.size.trans (h.size.trans hp.size.symm)
  varCount := hq.varCount.trans (h.varCount.trans hp.varCount.symm)
  linked := hq.linked
  resolve := hq.resolve.trans (h.resolve.trans hp.resolve.symm)
  owner := hq.owner.trans (h.owner.trans hp.owner.symm)
  arithmetic := hq.arithmetic.trans (h.arithmetic.trans hp.arithmetic.symm)
  classAt := by
    funext j
    rw [hq.classAt, hp.classAt, h.resolve, h.classAt]
  linked_left := hp.linked
  size_left := hp.size.trans h.size_left

theorem merged (h : Twin n p q) {plan : Absorption} {m : Option Multiterm}
    (hp : Merged p p' plan m) (hq : Merged q q' plan m) : Twin n p' q' := by
  have hresolve : q'.resolve = p'.resolve := by
    funext j
    rw [hq.resolve, hp.resolve, h.resolve]
  refine ⟨⟨⟨?_, ?_, hq.linked, hresolve, ?_, ?_⟩, ?_⟩, hp.linked, hp.size.trans h.size_left⟩
  · exact hq.size.trans (h.size.trans hp.size.symm)
  · exact hq.varCount.trans (h.varCount.trans hp.varCount.symm)
  · funext v
    rw [hq.owner, hp.owner, h.owner]
  · exact hq.arithmetic.trans (h.arithmetic.trans hp.arithmetic.symm)
  · funext j
    rw [hq.classAt, hp.classAt, hresolve, h.classAt, h.arithmetic]

theorem extended (h : Twin n p q) (hp : Extended p p') (hq : Extended q q') :
    Twin (n + 1) p' q' where
  size := by rw [hq.size, hp.size, h.size]
  varCount := by rw [hq.varCount, hp.varCount, h.varCount]
  linked := hq.linked
  resolve := hq.resolve.trans (h.resolve.trans hp.resolve.symm)
  owner := by
    funext v
    rw [hq.owner, hp.owner, h.varCount, h.size, h.owner]
  arithmetic := hq.arithmetic.trans (h.arithmetic.trans hp.arithmetic.symm)
  classAt := by
    funext j
    rw [hq.classAt, hp.classAt, h.size, h.varCount, h.classAt]
  linked_left := hp.linked
  size_left := by rw [hp.size, h.size_left]

end Twin

/-! ### Operations that can not fail -/

namespace Twin

theorem find (h : Twin n p q) (id : ClassId) : Twin n (p.find id).2 (q.find id).2 :=
  h.similar (h.linked_left.similar_find id) (h.linked.similar_find id)

/-- The class that is found is one of the `n` classes if the number is that of one. -/
theorem findRoot (h : Twin n p q) (id : ClassId) :
    Alike (Twin n) (fun root => id.index < n → root.index < n)
      ((modifyGet (·.find id) : PartitionM _) p) ((modifyGet (·.find id) : PartitionM _) q) :=
  .modifyGet (congrFun h.resolve id)
    (fun hid => h.size_left ▸ h.linked_left.resolve_lt (h.size_left.symm ▸ hid)) (h.find id)

theorem update (h : Twin n p q) (id : ClassId) (f : Class → Class) :
    Twin n (p.update id f) (q.update id f) := by
  by_cases hid : id.index < p.records.size
  · have hp := h.linked_left.updated_update f hid
    have hq := h.linked.updated_update f (h.size ▸ hid)
    rw [h.resolve, h.classAt] at hq
    exact h.updated hp hq
  · rw [update_of_ge (not_lt.1 hid), update_of_ge (h.size.trans_le (not_lt.1 hid))]
    exact h

theorem foldl_setPending (h : Twin n p q) (ids : List ClassId) :
    Twin n (ids.foldl (fun p id => p.setPending id 0) p)
      (ids.foldl (fun p id => p.setPending id 0) q) := by
  induction ids generalizing p q with
  | nil => exact h
  | cons id ids ih => exact ih (h.update id _)

theorem occurrences (h : Twin n p q) : q.occurrences = p.occurrences := by
  rw [Partition.occurrences, Partition.occurrences, h.liveClasses h.linked_left, h.classAt]

theorem freshVar (h : Twin n p q) : Alike (Twin (n + 1)) (fun _ => True)
    ((modifyGet Partition.freshVar : PartitionM _) p)
    ((modifyGet Partition.freshVar : PartitionM _) q) :=
  .modifyGet (congrArg Var.mk h.varCount) trivial
    (h.extended h.linked_left.extended_freshVar h.linked.extended_freshVar)

theorem setPending (h : Twin n p q) (id : ClassId) (pending : ℕ) : Alike (Twin n) (fun _ => True)
    ((modify (·.setPending id pending) : PartitionM _) p)
    ((modify (·.setPending id pending) : PartitionM _) q) :=
  .modify trivial (h.update id _)

theorem takeTerm (h : Twin n p q) (id : ClassId) :
    Alike (Twin n) (fun _ => True) ((modifyGet (·.takeTerm id) : PartitionM _) p)
      ((modifyGet (·.takeTerm id) : PartitionM _) q) :=
  .modifyGet (by rw [Partition.takeTerm, Partition.takeTerm, h.classAt]) trivial
    (h.update id fun cls => { cls with term := none })

/-! ### Operations that may fail -/

/-- The class that is found to own a variable is one of the `n` classes. -/
theorem findOwner (h : Twin n p q) (v : Var) :
    Alike (Twin n) (fun id => id.index < n) (Partition.findOwner v p) (Partition.findOwner v q) := by
  have howner : q.owner? v = p.owner? v := congrFun h.owner v
  cases hv : p.owner? v with
  | none =>
    rw [findOwner_eq_error hv, findOwner_eq_error (howner.trans hv)]
    exact .error h
  | some id =>
    refine .of_ends (h.linked_left.findOwner_ends hv) (h.linked.findOwner_ends (howner.trans hv))
      ?_ (fun _ _ _ _ he => he.elim) (fun _ _ _ _ _ he => he) fun _ _ _ _ he => he.elim
    rintro _ p' _ q' ⟨rfl, hp⟩ ⟨rfl, hq⟩
    obtain ⟨i, hi, rfl⟩ := owner?_eq_some_iff.1 hv
    refine ⟨rfl, ?_, h.similar hp hq⟩
    exact h.size_left ▸ h.linked_left.resolve_lt (h.linked_left.owners_lt hi)

theorem payOff (h : Twin n p q) (id : ClassId) :
    Alike (Twin n) (fun _ => True) (Partition.payOff id p) (Partition.payOff id q) := by
  refine .bind (h.findRoot id) fun root p q _ h => ?_
  refine .get_bind ?_
  rw [h.classAt]
  cases (p.classAt root).pending with
  | zero => exact .error h
  | succ k =>
    refine .bind (.modify (P := fun _ => True) trivial (h.update root _)) fun _ _ _ _ h => ?_
    exact .ok trivial h

theorem commit (h : Twin n p q) (id : ClassId) (t : Multiterm) :
    Alike (Twin n) (fun _ => True) (Partition.commit id t p) (Partition.commit id t q) := by
  refine .bind (h.takeTerm id) fun old p q _ h => ?_
  cases Multiterm.mergeOption old (some t) with
  | error c => exact .error h
  | ok m => exact .modify trivial (h.update id _)

theorem countOccurrence (h : Twin n p q) (v : Var) : Alike (Twin n) (fun _ => True)
    (Partition.countOccurrence v p) (Partition.countOccurrence v q) := by
  refine .bind (h.findOwner v) fun owner p q _ h => .modify trivial ?_
  rw [h.arithmetic]
  exact h.update owner _

theorem countOccurrences (h : Twin n p q) : Alike (Twin n) (fun _ => True)
    (Partition.countOccurrences p) (Partition.countOccurrences q) := by
  refine .get_bind ?_
  rw [h.occurrences]
  have hzero : Twin n (p.liveClasses.foldl (fun p id => p.setPending id 0) p)
      (q.liveClasses.foldl (fun p id => p.setPending id 0) q) := by
    rw [h.liveClasses h.linked_left]
    exact h.foldl_setPending p.liveClasses
  refine .bind (.modify (P := fun _ => True) trivial hzero) fun _ _ _ _ h => ?_
  exact .forM (fun v _ _ h => h.countOccurrence v) _ h

/-- Which class absorbs which can be seen. -/
theorem absorption? (h : Twin n p q) (a b : ClassId) : q.absorption? a b = p.absorption? a b := by
  simp only [Partition.absorption?, h.resolve, h.classAt]

theorem absorb (h : Twin n p q) {plan : Absorption} (hplan : plan.Sound p) :
    Alike (Twin n) (fun _ => True) (Partition.absorb plan p) (Partition.absorb plan q) := by
  have hq := h.linked.absorb_leaves (h.sound hplan)
  rw [h.classAt] at hq
  -- either both multiterms are merged or both clash, since they are the same multiterms
  refine .of_ends (h.linked_left.absorb_leaves hplan) hq ?_ ?_ ?_ ?_
  · rintro _ p' _ q' ⟨m, hm, hp'⟩ ⟨m', hm', hq'⟩
    cases hm.symm.trans hm'
    exact ⟨rfl, trivial, h.merged hp' hq'⟩
  · rintro _ p' _ q' ⟨c, rfl, hc, hp'⟩ ⟨c', rfl, hc', hq'⟩
    cases hc.symm.trans hc'
    exact ⟨rfl, h.merged hp' hq'⟩
  · rintro _ _ _ _ ⟨m, hm, -⟩ ⟨c, -, hc, -⟩
    cases hm.symm.trans hc
  · rintro _ _ _ _ ⟨c, -, hc, -⟩ ⟨m, hm, -⟩
    cases hc.symm.trans hm

/-- The class that survives a merge is one of the `n` classes. -/
theorem merge (h : Twin n p q) (ha : a.index < n) (hb : b.index < n) :
    Alike (Twin n) (fun id => id.index < n) (Partition.merge a b p) (Partition.merge a b q) := by
  refine .bind (h.findRoot a) fun a p q hroot h => ?_
  have ha := hroot ha
  refine .bind (h.findRoot b) fun b p q hroot h => ?_
  have hb := hroot hb
  refine .get_bind ?_
  rw [h.absorption?]
  cases hplan : p.absorption? a b with
  | none => exact .ok ha h
  | some plan =>
    have hsound := h.linked_left.absorption_sound (h.size_left ▸ ha) (h.size_left ▸ hb) hplan
    have hlt : plan.survivor.index < n := h.size_left ▸ hsound.survivor_lt
    exact .bind (h.absorb hsound) fun _ _ _ _ h => .ok hlt h

end Twin

end Multiequation.Partition
