import Multiequation.Proofs.Pool.SolvedForm

/-!
# Merges before a run

The classes of a pool may be merged before the run begins. The ready queue is not touched then, so it
still lists the classes that were ready in the beginning. When both of two merged classes were waiting,
so is what they become, and the run is as right as without the merge. When a ready class is merged with
another one, the queue lists what became of it too early or twice, and the run takes it so; of the
classes that then are counted as discharged one never is.
-/

namespace Multiequation.Pool

open Multiequation.Partition

/-- Occurrences of the members of the class behind `id` are waited for. -/
def Waiting (pool : Pool) (id : ClassId) : Prop := (pool.partition.classAt id).pending ≠ 0

/-- The pools that come from `start` by merges of waiting classes and by merges that find that the two
classes are one. -/
inductive EarlyMerges (start : Pool) : Pool → Prop
  | start : EarlyMerges start start
  | same {pool pool' : Pool} {a b id : ClassId} : EarlyMerges start pool →
      a.index < pool.partition.records.size → b.index < pool.partition.records.size →
      pool.partition.resolve a = pool.partition.resolve b → mergeClasses a b pool = .ok id pool' →
      EarlyMerges start pool'
  | waiting {pool pool' : Pool} {a b id : ClassId} : EarlyMerges start pool →
      a.index < pool.partition.records.size → b.index < pool.partition.records.size →
      pool.Waiting a → pool.Waiting b → mergeClasses a b pool = .ok id pool' →
      EarlyMerges start pool'

variable {S : ∀ M : Domain, (Var → M.Object) → Prop} {n : ℕ} {start pool pool' : Pool}
  {closed : List ClassId} {a b id : ClassId} {u v : Var}

namespace Invariant

/-- A waiting class is open. -/
theorem open_of_waiting (h : Invariant S n pool closed [] [] []) (hv : pool.partition.owner? v = some a)
    (ha : pool.Waiting a) : a ∈ pool.partition.openClasses closed :=
  mem_openClasses.2 ⟨h.proper.owner_mem_liveClasses hv, fun hclosed =>
    ha (h.isClosed.pending a hclosed)⟩

/-- Two waiting classes may be held, together with the claim that their values are equal. -/
theorem hold_waiting (h : Invariant S n pool closed [] [] []) (hv : pool.partition.owner? v = some a)
    (hu : pool.partition.owner? u = some b) (ha : pool.Waiting a) (hb : pool.Waiting b) :
    Invariant (fun M w => S M w ∧ w u = w v) n pool closed [u, v] [] [⟨⟨[v, u]⟩, none⟩] where
  proper := h.proper
  isClosed := h.isClosed
  occ_lt := h.occ_lt
  pending := h.pending
  ready_nodup := h.ready_nodup
  mem_ready id := by
    rw [h.mem_ready]
    refine and_congr_right fun _ => and_congr_right fun hzero =>
      iff_of_true (List.forall_mem_nil _) ?_
    simp only [List.forall_mem_cons, List.not_mem_nil, false_imp_iff, implies_true, and_true, hv, hu,
      ne_eq, Option.some.injEq]
    exact ⟨fun hid => hb (hid ▸ hzero), fun hid => ha (hid ▸ hzero)⟩
  remaining := h.remaining
  held_open := by
    simp only [List.forall_mem_cons, List.not_mem_nil, false_imp_iff, implies_true, and_true]
    exact ⟨⟨b, h.open_of_waiting hu hb, hu⟩, a, h.open_of_waiting hv ha, hv⟩
  waiting := h.waiting
  asserts M w := by
    rw [h.asserts, and_assoc]
    refine and_congr_right fun _ => ?_
    simp [Cell.Holds, Cell.Describes]

/-- A merge of two waiting classes keeps the invariant; it adds the claim that they are equal. -/
theorem unite_waiting (h : Invariant S n pool closed [] [] []) (hv : pool.partition.owner? v = some a)
    (hu : pool.partition.owner? u = some b) (ha : pool.Waiting a) (hb : pool.Waiting b)
    (hready : pool'.ready = pool.ready) (hpending : pool'.pending = pool.pending)
    (hremaining : pool'.remaining = pool.remaining - 1)
    (hunites : Unites pool.partition pool'.partition v u id) :
    Invariant (fun M w => S M w ∧ w u = w v) n pool' closed [] [] [] := by
  obtain ⟨plan, m, hplan, hjoins, rfl, hm, hq⟩ := hunites
  have hmerged : Invariant (fun M w => S M w ∧ w u = w v) n pool' closed [v] [] [] :=
    ((h.hold_waiting hv hu ha hb).merge hplan hjoins hm hq).drop.of_similar (.refl hq.linked) hready
      hremaining hpending
  refine hmerged.release_waiting (hq.owner?_of_joins hjoins) ?_
  rw [h.proper.pending_survivor hplan hq]
  -- the survivor is one of the two classes, and its count does not fall
  have hsurvivor : pool.Waiting plan.survivor := by
    obtain ⟨hs, -⟩ | ⟨hs, -⟩ := hjoins
    · rwa [← Option.some.inj (hv.symm.trans hs)]
    · rwa [← Option.some.inj (hu.symm.trans hs)]
  exact fun hzero => hsurvivor (Nat.eq_zero_of_add_eq_zero_right hzero)

/-- Selecting takes a class that is not closed and not waited for. -/
theorem selectReady_ok (h : Invariant S n pool closed [] [] [])
    (hok : selectReady pool = .ok id pool') : id ∉ closed ∧ ¬ pool'.Waiting id := by
  cases hready : pool.ready.toList with
  | nil =>
    rw [selectReady_of_nil hready] at hok
    cases hok
  | cons x rest =>
    obtain ⟨hopen, hzero⟩ := h.select_open hready
    obtain ⟨rfl, q, journal, hq, rfl⟩ := (selectReady_ends h.proper.linked hready).of_ok hok
    refine ⟨(mem_openClasses.1 hopen).2, not_not.2 ?_⟩
    dsimp only
    rw [hq.classAt, hzero]

end Invariant

/-- The pools that early merges lead to begin a run with the invariant. -/
theorem EarlyMerges.invariant (hstart : Invariant S n start [] [] [] [])
    (h : EarlyMerges start pool) : ∃ S', Invariant S' n pool [] [] [] [] := by
  induction h with
  | start => exact ⟨S, hstart⟩
  | @same pool pool' a b id _ ha hb hab hok ih =>
    obtain ⟨S', h⟩ := ih
    obtain ⟨v, -, hv⟩ := h.proper.exists_owner (h.proper.linked.resolve_mem_liveClasses ha)
    obtain ⟨hready, hpending, ⟨-, -, hremaining, hq⟩ | ⟨hne, -⟩⟩ :=
      (mergeClasses_ends h.proper.toWellFormed hv (hab ▸ hv)).of_ok hok
    · exact ⟨S', h.of_similar hq hready hremaining hpending⟩
    · exact absurd hab hne
  | @waiting pool pool' a b id _ ha hb hwa hwb hok ih =>
    obtain ⟨S', h⟩ := ih
    have hlinked := h.proper.linked
    obtain ⟨v, -, hv⟩ := h.proper.exists_owner (hlinked.resolve_mem_liveClasses ha)
    obtain ⟨u, -, hu⟩ := h.proper.exists_owner (hlinked.resolve_mem_liveClasses hb)
    rw [Waiting, ← classAt_resolve hlinked] at hwa hwb
    obtain ⟨hready, hpending, ⟨-, -, hremaining, hq⟩ | ⟨-, hremaining, hunites⟩⟩ :=
      (mergeClasses_ends h.proper.toWellFormed hv hu).of_ok hok
    · exact ⟨S', h.of_similar hq hready hremaining hpending⟩
    · rw [h.proper.arithmetic, Arithmetic.pred] at hremaining
      exact ⟨_, h.unite_waiting hv hu hwa hwb hready hpending hremaining hunites⟩

/-- Counting the occurrences of a reached partition succeeds. After merges of waiting classes in the
pool made of it, the run selects no class that is waited for and none twice, and when it succeeds its
order lists every live class once. -/
theorem order_of_early_merges {p : Partition} (h : p.Reached) (journal : Journal) :
    ∃ q, Partition.countOccurrences p = .ok ⟨⟩ q ∧
      ∀ start, EarlyMerges (ofPartition q journal) start →
        (∀ closed pool id pool', Heads start closed pool → selectReady pool = .ok id pool' →
          id ∉ closed ∧ ¬ pool'.Waiting id) ∧
        ∀ order pool, discharge start = .ok order pool →
          order.Nodup ∧ ∀ id, id ∈ order ↔ id ∈ pool.partition.liveClasses := by
  have hp := h.proper
  obtain ⟨_, q, hok, ⟨g, hq⟩, hcount⟩ := hp.countOccurrences_ends.exists_ok
  refine ⟨q, hok, fun start hmerges => ?_⟩
  obtain ⟨S, hstart⟩ := hmerges.invariant (invariant_ofPartition (hq.proper hp) hcount journal)
  refine ⟨fun closed pool id pool' hhead hselect =>
    (hhead.invariant hstart).selectReady_ok hselect, fun order pool hd => ?_⟩
  obtain ⟨hheads, hdone⟩ := hstart.discharge_ends.of_ok hd
  have hinv := hheads.invariant hstart
  exact ⟨hinv.isClosed.nodup, fun id => ⟨hinv.isClosed.live id, hinv.mem_closed hdone⟩⟩

/-- The first of three variables is claimed equal to a term over the other two, whose classes wait and
are merged before the run. -/
theorem order_of_merged_arguments : ∃ p q start order pool, Partition.Reached p ∧
    Partition.countOccurrences p = .ok ⟨⟩ q ∧ EarlyMerges (ofPartition q #[]) start ∧
    discharge start = .ok order pool ∧ order = [⟨0⟩, ⟨1⟩] ∧
    order.Nodup ∧ ∀ id, id ∈ order ↔ id ∈ pool.partition.liveClasses := by
  let t : Multiterm := ⟨⟨"f", by decide⟩, [.var ⟨1⟩, .var ⟨2⟩]⟩
  let owners : Array ClassId := #[⟨0⟩, ⟨1⟩, ⟨2⟩]
  let first : Record := .live ⟨⟨[⟨0⟩]⟩, 1, 0, some t⟩
  let single : ℕ → ℕ → Record := fun i k => .live ⟨⟨[⟨i⟩]⟩, 1, k, none⟩
  let p : Partition := ⟨owners, #[first, single 1 0, single 2 0], .unbounded⟩
  let q : Partition := ⟨owners, #[first, single 1 1, single 2 1], .unbounded⟩
  have hp : p.Reached := by
    have ht : t.Filled := Multiterm.allCells_mk.2 (by simp [Cell.IsOccupied, Cell.var])
    have hcommit : Partition.commit ⟨0⟩ t
        (Partition.start .unbounded).freshVar.2.freshVar.2.freshVar.2 = .ok ⟨⟩ p := by cbv
    exact .committed (.created (.created (.created .empty))) (by decide) ht (by decide) hcommit
  have hq : Partition.countOccurrences p = .ok ⟨⟩ q := by cbv
  obtain ⟨start, pool, hmerge, hrun⟩ : ∃ start pool,
      mergeClasses ⟨1⟩ ⟨2⟩ (ofPartition q #[]) = .ok ⟨1⟩ start ∧
      discharge start = .ok [⟨0⟩, ⟨1⟩] pool := ⟨_, _, by cbv, by cbv⟩
  have hstart : EarlyMerges (ofPartition q #[]) start :=
    .waiting (a := ⟨1⟩) (b := ⟨2⟩) .start (by decide) (by decide) Nat.one_ne_zero Nat.one_ne_zero
      hmerge
  obtain ⟨s, hs, horder⟩ := order_of_early_merges hp #[]
  cases hq.symm.trans hs
  exact ⟨p, q, start, _, pool, hp, hq, hstart, hrun, rfl, (horder start hstart).2 _ _ hrun⟩

/-- Two of three classes that wait for nothing are merged before the run, which then discharges what
they become twice and the third class never. -/
theorem order_repeats_merged_ready : ∃ q start pool,
    Partition.countOccurrences Partition.empty.freshVar.2.freshVar.2.freshVar.2 = .ok ⟨⟩ q ∧
    mergeClasses ⟨0⟩ ⟨1⟩ (ofPartition q #[]) = .ok ⟨0⟩ start ∧
    discharge start = .ok [⟨0⟩, ⟨0⟩] pool ∧ pool.partition.liveClasses = [⟨0⟩, ⟨2⟩] := by
  refine ⟨_, _, _, by cbv, by cbv, by cbv, by cbv⟩

end Multiequation.Pool
