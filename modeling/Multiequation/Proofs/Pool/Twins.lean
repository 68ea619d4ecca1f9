import Multiequation.Pool
import Multiequation.Proofs.Partition.Twins

/-!
# Pools that look the same

Two pools whose partitions look the same, and which agree in everything else, run in lockstep: the same
class is selected, the same classes are merged and become ready, and a failure is the same failure.
-/

namespace Multiequation.Pool

open Multiequation.Partition

/-- Two pools that differ in nothing but links among `n` classes. -/
structure Twin (n : ℕ) (s t : Pool) : Prop where
  partition : s.partition.Twin n t.partition
  remaining : t.remaining = s.remaining
  ready : t.ready = s.ready
  pending : t.pending = s.pending
  journal : t.journal = s.journal

variable {n m : ℕ} {s t : Pool} {α : Type} {P : α → Prop}

/-! ### What can be seen -/

/-- All that can be asked about a pool without changing it. -/
structure View where
  partition : Partition.View
  remaining : ℕ
  ready : List ClassId
  pending : List ClassId
  journal : Journal

/-- What can be seen of a pool. -/
def view (pool : Pool) : View where
  partition := pool.partition.view
  remaining := pool.remaining
  ready := pool.readyClasses
  pending := pool.pendingClasses
  journal := pool.journal

namespace Twin

theorem refl (h : s.partition.Linked) : Twin s.partition.records.size s s :=
  ⟨.refl h, rfl, rfl, rfl, rfl⟩

theorem view_eq (h : Twin n s t) : t.view = s.view := by
  have hready : t.readyClasses = s.readyClasses := by
    rw [readyClasses, readyClasses, h.ready, h.partition.resolve]
  have hpending : t.pendingClasses = s.pendingClasses := by
    rw [pendingClasses, pendingClasses, h.pending, h.partition.resolve, h.partition.classAt]
  simp only [view, h.partition.view_eq, h.remaining, hready, hpending, h.journal]

/-- Work on the partitions of both pools. -/
theorem onPartition (h : Twin n s t) {x y : PartitionM α}
    (hx : Alike (Partition.Twin m) P (x s.partition) (y t.partition)) :
    Alike (Twin m) P (Pool.onPartition x s) (Pool.onPartition y t) := by
  unfold Pool.onPartition lift
  generalize x s.partition = r at hx
  generalize y t.partition = r' at hx
  cases hx with
  | ok ha hR => exact .ok ha ⟨hR, h.remaining, h.ready, h.pending, h.journal⟩
  | error hR => exact .error ⟨hR, h.remaining, h.ready, h.pending, h.journal⟩

theorem record (h : Twin n s t) (e : Event) :
    Alike (Twin n) (fun _ => True) (Pool.record e s) (Pool.record e t) :=
  .modify trivial ⟨h.partition, h.remaining, h.ready, h.pending, congrArg (·.push e) h.journal⟩

theorem find (h : Twin n s t) (id : ClassId) : Alike (Twin n)
    (fun root => id.index < n → root.index < n) (Pool.find id s) (Pool.find id t) :=
  h.onPartition (h.partition.findRoot id)

/-! ### Selecting and merging -/

theorem selectReady (h : Twin n s t) :
    Alike (Twin n) (fun _ => True) (Pool.selectReady s) (Pool.selectReady t) := by
  refine .get_bind ?_
  rw [h.ready, h.remaining]
  cases s.ready.dequeue with
  | error e => exact .error h
  | ok front =>
    have htaken : Twin n { s with ready := front.2, remaining := s.remaining - 1 }
        { t with ready := front.2, remaining := s.remaining - 1 } :=
      ⟨h.partition, rfl, rfl, h.pending, h.journal⟩
    refine .bind (P := fun _ => True) (.ok trivial htaken) fun _ s t _ h => ?_
    refine .bind (h.find front.1) fun id s t _ h => ?_
    exact .bind (h.record _) fun _ _ _ _ h => .ok trivial h

theorem mergeClasses (h : Twin n s t) {a b : ClassId} (ha : a.index < n) (hb : b.index < n) :
    Alike (Twin n) (fun id => id.index < n) (Pool.mergeClasses a b s) (Pool.mergeClasses a b t) := by
  refine .bind (h.find a) fun a s t hroot h => ?_
  have ha := hroot ha
  refine .bind (h.find b) fun b s t hroot h => ?_
  have hb := hroot hb
  refine .get_bind ?_
  have hevent : t.partition.mergeEvent? a b = s.partition.mergeEvent? a b := by
    rw [mergeEvent?, mergeEvent?, h.partition.absorption?, h.partition.classAt]
  rw [hevent]
  refine .bind (.optionForM (fun e _ _ h => h.record e) _ h) fun _ s t _ h => ?_
  refine .bind (h.onPartition (h.partition.merge ha hb)) fun survivor s t hsurvivor h => ?_
  split_ifs
  · have hcount := congrArg₂ Arithmetic.pred h.partition.arithmetic h.remaining
    refine .bind (.modify (P := fun _ => True) trivial
      ⟨h.partition, hcount, h.ready, h.pending, h.journal⟩) fun _ _ _ _ h => .ok hsurvivor h
  · exact .ok hsurvivor h

/-! ### Folding a frontier back -/

theorem payOffVar (h : Twin n s t) (v : Var) :
    Alike (Twin n) (fun id => id.index < n) (Pool.payOffVar v s) (Pool.payOffVar v t) := by
  refine h.onPartition (.bind (h.partition.findOwner v) fun owner _ _ howner h => ?_)
  exact .bind (h.payOff owner) fun _ _ _ _ h => .ok howner h

theorem join (h : Twin n s t) {anchor : ClassId} (hanchor : anchor.index < n) (v : Var) :
    Alike (Twin n) (fun id => id.index < n) (Pool.join anchor v s) (Pool.join anchor v t) := by
  refine .bind (h.payOffVar v) fun owner s t howner h => ?_
  split_ifs
  · exact .ok hanchor h
  · exact h.mergeClasses hanchor howner

theorem settle (h : Twin n s t) (cell : Cell) :
    Alike (Twin n) (fun _ => True) (Pool.settle cell s) (Pool.settle cell t) := by
  refine .bind (.ofExcept cell.vars.dequeue h) fun front s t _ h => ?_
  refine .bind (h.payOffVar front.1) fun anchor s t hanchor h => ?_
  refine .bind (.foldlM (fun _ v _ _ hc h => h.join hc v) front.2.toList hanchor h)
    fun anchor s t _ h => ?_
  refine .bind (.optionForM (fun term _ _ h => h.onPartition (h.partition.commit anchor term)) _ h)
    fun _ s t _ h => ?_
  refine .get_bind ?_
  rw [h.partition.classAt]
  split_ifs
  · refine .bind (h.record _) fun _ s t _ h => ?_
    have hready := congrArg (·.enqueue anchor) h.ready
    exact .modify trivial ⟨h.partition, h.remaining, hready, h.pending, h.journal⟩
  · exact .ok trivial h

theorem snapshot (h : Twin n s t) : t.snapshot = s.snapshot := by
  have hsummary : t.partition.summary = s.partition.summary := by
    funext id
    rw [summary, summary, h.partition.classAt]
  rw [Pool.snapshot, Pool.snapshot, h.remaining, hsummary,
    h.partition.liveClasses h.partition.linked_left]

theorem compact (h : Twin n s t) (frontier : List Cell) :
    Alike (Twin n) (fun _ => True) (Pool.compact frontier s) (Pool.compact frontier t) := by
  refine .bind (.forM (fun cell _ _ h => h.settle cell) frontier.reverse h) fun _ s t _ h => ?_
  refine .get_bind ?_
  rw [h.snapshot]
  exact h.record _

/-! ### Discharging -/

theorem peelClass (h : Twin n s t) (id : ClassId) :
    Alike (Twin n) (fun _ => True) (Pool.peelClass id s) (Pool.peelClass id t) := by
  refine .bind (h.onPartition (h.partition.takeTerm id)) fun term s t _ h => ?_
  cases term with
  | none => exact .ok trivial h
  | some term =>
    refine .bind (.ofExcept term.peel.frontier h) fun frontier s t _ h => ?_
    refine .bind (h.record _) fun _ s t _ h => ?_
    refine .bind (h.onPartition (h.partition.commit id term.peel.kept)) fun _ s t _ h => ?_
    exact h.compact frontier

theorem dischargeNext (h : Twin n s t) :
    Alike (Twin n) (fun _ => True) (Pool.dischargeNext s) (Pool.dischargeNext t) := by
  refine .bind h.selectReady fun id s t _ h => ?_
  refine .bind (h.peelClass id) fun _ s t _ h => ?_
  exact (h.find id).mono fun _ _ => trivial

theorem dischargeUpTo (h : Twin n s t) (k : ℕ) :
    Alike (Twin n) (fun _ => True) (Pool.dischargeUpTo k s) (Pool.dischargeUpTo k t) := by
  induction k generalizing s t with
  | zero => exact .ok trivial h
  | succ k ih =>
    refine .get_bind ?_
    rw [h.remaining]
    split_ifs
    · exact .ok trivial h
    · refine .bind h.dischargeNext fun id s t _ h => ?_
      exact .bind (ih h) fun _ _ _ _ h => .ok trivial h

/-- Pools that look the same are discharged in the same order, or up to the same failure. -/
theorem discharge (h : Twin n s t) :
    Alike (Twin n) (fun _ => True) (Pool.discharge s) (Pool.discharge t) := by
  refine .get_bind ?_
  have hwork : t.work = s.work := by
    rw [work, work, h.ready, h.partition.debt h.partition.linked_left]
  rw [hwork]
  exact h.dischargeUpTo (s.work + 1)

end Twin

end Multiequation.Pool
