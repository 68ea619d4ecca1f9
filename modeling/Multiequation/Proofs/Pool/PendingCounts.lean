import Multiequation.Proofs.Pool.Discharge
import Mathlib

/-!
# Pending counts over whole runs

A pool is made of any partition that creating variables, merging classes and committing multiterms
lead to. Then, at every head of the loop of a run and between any two cells that are folded back, the
pending counts, the ready queue and the number of remaining classes are what they are meant to be.
-/

namespace Multiequation

/-- The partitions that are reached by creating variables, looking up owners, merging classes and
committing multiterms that can be peeled and whose variables have been created. What is counted for
them are occurrences in memory, and so no count needs a bound. -/
inductive Partition.Reached : Partition → Prop
  | empty : Reached (.start .unbounded)
  | created {p : Partition} : Reached p → Reached p.freshVar.2
  | found {p q : Partition} {v : Var} {id : ClassId} : Reached p →
      findOwner v p = .ok id q → Reached q
  | merged {p q : Partition} {a b id : ClassId} : Reached p → a.index < p.records.size →
      b.index < p.records.size → merge a b p = .ok id q → Reached q
  | committed {p q : Partition} {id : ClassId} {t : Multiterm} : Reached p →
      id.index < p.records.size → t.Filled → (∀ v ∈ t.vars, v.index < p.varCount) →
      commit id t p = .ok ⟨⟩ q → Reached q

namespace Partition

variable {p q : Partition}

theorem Proper.merge_ok (h : p.Proper p.varCount) {a b id : ClassId}
    (ha : a.index < p.records.size) (hb : b.index < p.records.size)
    (hok : merge a b p = .ok id q) : q.Proper q.varCount := by
  obtain ⟨-, -, hq⟩ | ⟨plan, m, hplan, -, hm, hq⟩ :=
    (h.linked.merge_leaves ha hb).of_ok hok
  · exact hq.varCount ▸ h.of_similar hq
  · exact hq.varCount ▸ h.of_merged (h.linked.absorption_sound ha hb hplan) hm hq

theorem Proper.commit_ok (h : p.Proper p.varCount) {id : ClassId} {t : Multiterm}
    (hid : id.index < p.records.size) (ht : t.Filled)
    (hvars : ∀ v ∈ t.vars, v.index < p.varCount) (hok : commit id t p = .ok ⟨⟩ q) :
    q.Proper q.varCount := by
  obtain ⟨m, hm, hq⟩ := (h.linked.commit_ends hid t).of_ok hok
  rw [← classAt_resolve h.linked id] at hm hq
  exact hq.varCount ▸ h.of_commit hq (h.linked.resolve_resolve id) hm ht hvars

theorem Reached.proper (h : p.Reached) : p.Proper p.varCount := by
  induction h with
  | empty => exact proper_start
  | created _ ih => exact ih.of_extended ih.linked.extended_freshVar
  | found _ hok ih =>
    have hq := (ih.linked.findOwner_ok hok).2
    exact hq.varCount ▸ ih.of_similar hq
  | merged _ ha hb hok ih => exact ih.merge_ok ha hb hok
  | committed _ hid ht hvars hok ih => exact ih.commit_ok hid ht hvars hok

end Partition

namespace Pool

/-- What is counted is right when the classes `closed` have been taken from the ready queue and
`cells` are still to be folded back. -/
structure Accurate (pool : Pool) (closed : List ClassId) (cells : List Cell) : Prop where
  /-- An open class waits for the occurrences of its members in the open multiterms and the cells. -/
  pending : ∀ id ∈ pool.partition.openClasses closed, (pool.partition.classAt id).pending =
    (pool.partition.openVars closed ++ Cell.varsOfArgs cells).countP
      fun v => v ∈ (pool.partition.classAt id).members.toList
  /-- No member of a closed class occurs there. -/
  sealed : ∀ id ∈ closed, ∀ v ∈ (pool.partition.classAt id).members.toList,
    v ∉ pool.partition.openVars closed ++ Cell.varsOfArgs cells
  /-- The ready queue holds the open classes that wait for nothing, each once. -/
  ready_nodup : pool.readyClasses.Nodup
  mem_ready : ∀ id, id ∈ pool.readyClasses ↔
    id ∈ pool.partition.openClasses closed ∧ (pool.partition.classAt id).pending = 0
  remaining : pool.remaining = (pool.partition.openClasses closed).length

variable {S : ∀ M : Domain, (Var → M.Object) → Prop} {n : ℕ} {pool : Pool}
  {closed : List ClassId} {cells : List Cell}

theorem Invariant.accurate (h : Invariant S n pool closed [] (Cell.varsOfArgs cells) cells) :
    Accurate pool closed cells where
  pending id hid := by
    have hlive := (Partition.mem_openClasses.1 hid).1
    rw [h.pending id hlive, Partition.occurrencesOf]
    exact List.countP_congr fun v _ => by simp [h.proper.mem_members_of_live hlive]
  sealed id hid v hv hmem := by
    have hlive := h.isClosed.live id hid
    have hcount := h.pending id hlive
    rw [h.isClosed.pending id hid, eq_comm, Partition.occurrencesOf_eq_zero_iff] at hcount
    exact hcount v hmem ((h.proper.mem_members_of_live hlive).1 hv)
  ready_nodup := h.ready_nodup
  mem_ready id := by
    rw [h.mem_ready]
    exact and_congr_right fun _ => and_iff_left (List.forall_mem_nil _)
  remaining := h.remaining

/-- Counting the occurrences of a reached partition succeeds, and from then on the counts are right
at every head of the loop of a run and between any two cells that are folded back. A run that
succeeds ends at such a head, with no class remaining. -/
theorem accurate_of_reached {p : Partition} (h : p.Reached) (journal : Journal) :
    ∃ q, Partition.countOccurrences p = .ok ⟨⟩ q ∧
      (∀ closed pool, Heads (ofPartition q journal) closed pool → Accurate pool closed []) ∧
      (∀ closed cells pool, Folding (ofPartition q journal) closed cells pool →
        Accurate pool closed cells) ∧
      ∀ order pool, discharge (ofPartition q journal) = .ok order pool →
        Heads (ofPartition q journal) order pool ∧ pool.remaining = 0 := by
  have hp := h.proper
  obtain ⟨_, q, hok, ⟨g, hq⟩, hcount⟩ := hp.countOccurrences_ends.exists_ok
  have hstart := invariant_ofPartition (hq.proper hp) hcount journal
  refine ⟨q, hok, fun closed pool hhead => ?_, fun closed cells pool hfold => ?_,
    fun order pool hdischarge => ?_⟩
  · have h : Invariant _ _ pool closed [] (Cell.varsOfArgs []) [] := hhead.invariant hstart
    exact h.accurate
  · exact (hfold.invariant hstart).1.accurate
  · exact hstart.discharge_ends.of_ok hdischarge

/-- Of two variables the first is claimed equal to a term in which the second occurs twice; one of
the two occurrences has been paid off. -/
theorem accurate_of_repeated_occurrence : ∃ p q pool, Partition.Reached p ∧
    Partition.countOccurrences p = .ok ⟨⟩ q ∧
    Folding (ofPartition q #[]) [⟨0⟩] [.var ⟨1⟩] pool ∧ Accurate pool [⟨0⟩] [.var ⟨1⟩] := by
  let t : Multiterm := ⟨⟨"f", by decide⟩, [.var ⟨1⟩, .var ⟨1⟩]⟩
  let cls : Class := ⟨⟨[⟨0⟩]⟩, 1, 0, some t⟩
  let p : Partition := ⟨#[⟨0⟩, ⟨1⟩], #[.live cls, .live ⟨⟨[⟨1⟩]⟩, 1, 0, none⟩], .unbounded⟩
  let q : Partition := ⟨#[⟨0⟩, ⟨1⟩], #[.live cls, .live ⟨⟨[⟨1⟩]⟩, 1, 2, none⟩], .unbounded⟩
  let r : Partition := ⟨#[⟨0⟩, ⟨1⟩], #[.live cls, .live ⟨⟨[⟨1⟩]⟩, 1, 1, none⟩], .unbounded⟩
  let opened : Pool := ⟨q, 1, .empty, [⟨1⟩], #[.selected ⟨0⟩ 1, .peeled ⟨0⟩ 2]⟩
  have hp : p.Reached := by
    have ht : t.Filled := Multiterm.allCells_mk.2 (by simp [Cell.IsOccupied, Cell.var])
    have hcommit : Partition.commit ⟨0⟩ t (Partition.start .unbounded).freshVar.2.freshVar.2 =
        .ok ⟨⟩ p := by cbv
    exact .committed (.created (.created .empty)) (by decide) ht (by decide) hcommit
  have hq : Partition.countOccurrences p = .ok ⟨⟩ q := by cbv
  have hopened : openNext (ofPartition q #[]) = .ok (⟨0⟩, some [.var ⟨1⟩, .var ⟨1⟩]) opened := by
    cbv
  have hsettled : settle (.var ⟨1⟩) opened = .ok ⟨⟩ { opened with partition := r } := by cbv
  have hfolding : Folding (ofPartition q #[]) [⟨0⟩] [.var ⟨1⟩] { opened with partition := r } :=
    .settled (.opened .start (by decide) hopened) hsettled
  obtain ⟨s, hs, -, haccurate, -⟩ := accurate_of_reached hp #[]
  cases hq.symm.trans hs
  exact ⟨p, q, _, hp, hq, hfolding, haccurate _ _ _ hfolding⟩

end Pool

end Multiequation
