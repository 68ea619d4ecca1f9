import Multiequation.Pool
import Multiequation.Proofs.Pool.Open

/-!
# The invariant of a run

Between the steps of a run the pending count of a class is the number of occurrences of its members in
the multiterms of the open classes and in the cells that are still to be folded back. While a cell is
folded back, the classes that it has touched are held: they are not put into the ready queue before
the cell is done. What the pool and the cells to come say about the values of the variables is what the
pool said when the run began.
-/

namespace Multiequation.Pool

open Multiequation.Partition

/-- The invariant of a run that began with the claims `S` about the values of variables. The classes
`closed` have been taken from the ready queue; `held` are members of the classes that are held back
from it; `occ` are occurrences and `cells` are claims that have left the multiterms but are not folded
back yet. -/
structure Invariant (S : ∀ M : Domain, (Var → M.Object) → Prop) (n : ℕ) (pool : Pool)
    (closed : List ClassId) (held occ : List Var) (cells : List Cell) : Prop where
  proper : pool.partition.Proper n
  isClosed : pool.partition.Closed closed
  occ_lt : ∀ v ∈ occ, v.index < n
  pending : ∀ id ∈ pool.partition.liveClasses, (pool.partition.classAt id).pending =
    pool.partition.occurrencesOf id (pool.partition.openVars closed ++ occ)
  ready_nodup : pool.readyClasses.Nodup
  mem_ready : ∀ id, id ∈ pool.readyClasses ↔ id ∈ pool.partition.openClasses closed ∧
    (pool.partition.classAt id).pending = 0 ∧ ∀ v ∈ held, pool.partition.owner? v ≠ some id
  remaining : pool.remaining = (pool.partition.openClasses closed).length
  held_open : ∀ v ∈ held, ∃ id ∈ pool.partition.openClasses closed,
    pool.partition.owner? v = some id
  waiting : ∀ id ∈ pool.partition.openClasses closed, (pool.partition.classAt id).pending ≠ 0 →
    id ∈ pool.pending.map pool.partition.resolve
  asserts : ∀ M w, S M w ↔ Asserts M w pool.partition ∧ ∀ c ∈ cells, c.Holds M w

/-- The failure is a clash, and the claims `S` are true in domains that have a clash only. -/
def Refutes (S : ∀ M : Domain, (Var → M.Object) → Prop) (e : Failure) : Prop :=
  (∃ c, e = .clash c) ∧ ∀ M w, S M w → M.HasClash

variable {S : ∀ M : Domain, (Var → M.Object) → Prop} {n : ℕ} {pool pool' : Pool}
  {closed : List ClassId} {held occ : List Var} {cells : List Cell} {p q : Partition}
  {id : ClassId} {u v : Var}

namespace Invariant

theorem live_of_open (h : Invariant S n pool closed held occ cells)
    (hid : id ∈ pool.partition.openClasses closed) :
    id.index < pool.partition.records.size ∧ pool.partition.resolve id = id :=
  (mem_liveClasses h.proper.linked).1 (mem_openClasses.1 hid).1

/-- Changes that can not be observed keep the invariant. -/
theorem of_similar (h : Invariant S n pool closed held occ cells)
    (hq : Similar pool.partition pool'.partition) (hready : pool'.ready = pool.ready)
    (hremaining : pool'.remaining = pool.remaining) (hpending : pool'.pending = pool.pending) :
    Invariant S n pool' closed held occ cells := by
  have hlinked := h.proper.linked
  have hclasses := openClasses_congr hq.toSameClasses hlinked closed
  have hrc : pool'.readyClasses = pool.readyClasses := by
    rw [readyClasses, readyClasses, hready, hq.resolve]
  refine ⟨h.proper.of_similar hq, h.isClosed.of_similar hlinked hq, h.occ_lt, ?_, ?_, ?_, ?_, ?_, ?_,
    ?_⟩
  · intro id hid
    rw [hq.liveClasses hlinked] at hid
    rw [hq.classAt, hq.openVars hlinked, occurrencesOf_congr hq.owner]
    exact h.pending id hid
  · rw [hrc]
    exact h.ready_nodup
  · intro id
    rw [hrc, hclasses, hq.classAt, hq.owner]
    exact h.mem_ready id
  · rw [hremaining, hclasses]
    exact h.remaining
  · rw [hclasses, hq.owner]
    exact h.held_open
  · rw [hclasses, hq.classAt, hpending, hq.resolve]
    exact h.waiting
  · intro M w
    rw [h.asserts, hq.asserts_iff]

/-! ### Paying off an occurrence -/

/-- An occurrence that is still to come is one of a member of an open class that is waited for. -/
theorem exists_pending (h : Invariant S n pool closed held (v :: occ) cells) :
    ∃ root k, pool.partition.owner? v = some root ∧
      root ∈ pool.partition.openClasses closed ∧
      (pool.partition.classAt root).pending = k + 1 := by
  obtain ⟨root, hroot⟩ := h.proper.exists_owner?_of_lt (h.occ_lt v List.mem_cons_self)
  have hlive := h.proper.owner_mem_liveClasses hroot
  have hcount := h.pending root hlive
  rw [occurrencesOf_append, occurrencesOf_cons, if_pos hroot] at hcount
  refine ⟨root, _, hroot, mem_openClasses.2 ⟨hlive, fun hclosed => ?_⟩, hcount⟩
  have := h.isClosed.pending root hclosed
  omega

/-- Its class has one occurrence less to wait for, and is held. -/
theorem payOff (h : Invariant S n pool closed held (v :: occ) cells) {root : ClassId} {k : ℕ}
    (hv : pool.partition.owner? v = some root)
    (hroot : root ∈ pool.partition.openClasses closed)
    (hk : (pool.partition.classAt root).pending = k + 1)
    (hq : Updated pool.partition q root { pool.partition.classAt root with pending := k }) :
    Invariant S n { pool with partition := q } closed (v :: held) occ cells := by
  have hlinked := h.proper.linked
  obtain ⟨hlt, hresolve⟩ := h.live_of_open hroot
  have hclasses := openClasses_congr hq.toSameClasses hlinked closed
  have hrepriced := Repriced.of_updated hlinked hresolve hq
  have hpending : ∀ j ∈ pool.partition.liveClasses, (q.classAt j).pending =
      if j = root then k else (pool.partition.classAt j).pending := by
    intro j hj
    rw [hq.classAt_of_live hlinked hj]
    split_ifs <;> rfl
  have hrc : readyClasses { pool with partition := q } = pool.readyClasses := by
    rw [readyClasses, readyClasses, hq.resolve]
  refine ⟨?_, h.isClosed.of_updated hlinked hq hroot, fun u hu => h.occ_lt u
    (List.mem_cons_of_mem v hu), ?_, ?_, ?_, ?_, ?_, ?_, ?_⟩
  · exact hrepriced.proper h.proper
  · intro id hid
    rw [hq.liveClasses hlinked] at hid
    have hcount := h.pending id hid
    rw [occurrencesOf_append, occurrencesOf_cons, hv] at hcount
    rw [hpending id hid, hrepriced.openVars hlinked, occurrencesOf_congr hq.owner,
      occurrencesOf_append]
    split_ifs with hj
    · subst hj
      rw [if_pos rfl] at hcount
      omega
    · rw [if_neg fun h => hj (Option.some.inj h).symm] at hcount
      exact hcount
  · rw [hrc]
    exact h.ready_nodup
  · intro id
    rw [hrc, h.mem_ready]
    simp only [hclasses, hq.owner, List.forall_mem_cons, hv, ne_eq, Option.some.injEq]
    refine and_congr_right fun hid => ?_
    rw [hpending id (mem_openClasses.1 hid).1]
    by_cases hj : id = root
    · simp [hj, hk]
    · rw [if_neg hj]
      simp [Ne.symm hj]
  · rw [hclasses]
    exact h.remaining
  · simp only [hclasses, hq.owner, List.forall_mem_cons]
    exact ⟨⟨root, hroot, hv⟩, h.held_open⟩
  · simp only [hclasses, hq.resolve]
    intro id hid hne
    refine h.waiting id hid fun hzero => hne ?_
    rw [hpending id (mem_openClasses.1 hid).1]
    split_ifs with hj
    · subst hj
      omega
    · exact hzero
  · intro M w
    rw [h.asserts, hrepriced.asserts_iff]

/-! ### Joining the variables of a cell -/

theorem hold_first {vs : List Var} {t : Option Multiterm}
    (h : Invariant S n pool closed [u, v] occ (⟨⟨v :: u :: vs⟩, t⟩ :: cells))
    (hu : pool.partition.owner? u = some id) (hv : pool.partition.owner? v = some id) :
    Invariant S n pool closed [v] occ (⟨⟨v :: vs⟩, t⟩ :: cells) where
  proper := h.proper
  isClosed := h.isClosed
  occ_lt := h.occ_lt
  pending := h.pending
  ready_nodup := h.ready_nodup
  mem_ready j := by simp [h.mem_ready, hu, hv]
  remaining := h.remaining
  held_open x hx := h.held_open x (List.mem_cons_of_mem u hx)
  waiting := h.waiting
  asserts M w := by
    rw [h.asserts]
    refine and_congr_right fun hasserts => ?_
    simp only [List.forall_mem_cons, Cell.Holds, Cell.Describes, hasserts.eq hu hv]
    tauto

section

variable {vs : List Var} {t : Option Multiterm} {plan : Absorption} {m : Option Multiterm}

/-- The classes of the two variables of a cell are held, and so they are open. -/
theorem open_of_joins (h : Invariant S n pool closed [u, v] occ cells)
    (hjoins : plan.Joins pool.partition v u) :
    plan.survivor ∈ pool.partition.openClasses closed ∧
      plan.absorbed ∈ pool.partition.openClasses closed := by
  have hheld : ∀ x ∈ [u, v], ∀ id, pool.partition.owner? x = some id →
      id ∈ pool.partition.openClasses closed := by
    intro x hx id hown
    obtain ⟨j, hj, hxj⟩ := h.held_open x hx
    rwa [Option.some.inj (hown.symm.trans hxj)]
  obtain ⟨hs, ha⟩ | ⟨hs, ha⟩ := hjoins
  · exact ⟨hheld v (by simp) _ hs, hheld u (by simp) _ ha⟩
  · exact ⟨hheld u (by simp) _ hs, hheld v (by simp) _ ha⟩

/-- The two classes are held, and so neither of them is in the ready queue. -/
theorem ne_of_mem_ready (h : Invariant S n pool closed [u, v] occ cells)
    (hjoins : plan.Joins pool.partition v u) (hid : id ∈ pool.readyClasses) :
    id ≠ plan.survivor ∧ id ≠ plan.absorbed := by
  obtain ⟨-, -, hfree⟩ := (h.mem_ready id).1 hid
  have hu := hfree u (by simp)
  have hv := hfree v (by simp)
  obtain ⟨hs, ha⟩ | ⟨hs, ha⟩ := hjoins
  · exact ⟨fun h => hv (h ▸ hs), fun h => hu (h ▸ ha)⟩
  · exact ⟨fun h => hu (h ▸ hs), fun h => hv (h ▸ ha)⟩

/-- A class that neither of the two variables is a member of is not held. -/
theorem owner?_ne_of_joins (hjoins : plan.Joins p v u) (hs : id ≠ plan.survivor)
    (ha : id ≠ plan.absorbed) : ∀ x ∈ [u, v], p.owner? x ≠ some id := by
  simp only [List.forall_mem_cons, List.not_mem_nil, false_imp_iff, implies_true, and_true]
  obtain ⟨hv, hu⟩ | ⟨hu, hv⟩ := hjoins
  · rw [hu, hv]
    exact ⟨fun h => ha (Option.some.inj h).symm, fun h => hs (Option.some.inj h).symm⟩
  · rw [hu, hv]
    exact ⟨fun h => hs (Option.some.inj h).symm, fun h => ha (Option.some.inj h).symm⟩

theorem readyClasses_of_merged (h : Invariant S n pool closed [u, v] occ cells)
    (hjoins : plan.Joins pool.partition v u) (hq : Merged pool.partition q plan m) (k : ℕ) :
    readyClasses { pool with partition := q, remaining := k } = pool.readyClasses := by
  refine List.map_congr_left fun x hx => ?_
  rw [hq.resolve, if_neg (h.ne_of_mem_ready hjoins (List.mem_map_of_mem hx)).2]

/-- The survivor waits for the occurrences of both classes. -/
theorem pending_of_merged (h : Invariant S n pool closed [u, v] occ cells)
    (hplan : plan.Sound pool.partition) (hjoins : plan.Joins pool.partition v u)
    (hm : Multiterm.mergeOption (pool.partition.classAt plan.survivor).term
      (pool.partition.classAt plan.absorbed).term = .ok m)
    (hq : Merged pool.partition q plan m) (hid : id ∈ q.liveClasses) :
    (q.classAt id).pending = q.occurrencesOf id (q.openVars closed ++ occ) := by
  have hlinked := h.proper.linked
  obtain ⟨hsurvivor, habsorbed⟩ := h.open_of_joins hjoins
  obtain ⟨hid, ha⟩ := (hq.mem_liveClasses hlinked hplan).1 hid
  have hperm := (hq.openVars_perm hlinked hplan hm hsurvivor habsorbed).append_right occ
  rw [occurrencesOf_perm hperm]
  by_cases hs : id = plan.survivor
  · subst hs
    rw [hq.occurrencesOf_survivor hplan, h.proper.pending_survivor hplan hq,
      ← h.pending _ (mem_openClasses.1 hsurvivor).1, ← h.pending _ (mem_openClasses.1 habsorbed).1]
  · rw [hq.occurrencesOf_of_ne hs ha, hq.classAt_of_ne ((mem_liveClasses hlinked).1 hid).2 hs ha]
    exact h.pending id hid

theorem mem_ready_of_merged (h : Invariant S n pool closed [u, v] occ cells)
    (hplan : plan.Sound pool.partition) (hjoins : plan.Joins pool.partition v u)
    (hq : Merged pool.partition q plan m) (id : ClassId) :
    id ∈ pool.readyClasses ↔ id ∈ q.openClasses closed ∧ (q.classAt id).pending = 0 ∧
      ∀ x ∈ [v], q.owner? x ≠ some id := by
  have hlinked := h.proper.linked
  rw [hq.mem_openClasses hlinked hplan, List.forall_mem_singleton, hq.owner?_of_joins hjoins]
  constructor
  · intro hid
    obtain ⟨hs, ha⟩ := h.ne_of_mem_ready hjoins hid
    obtain ⟨hopen, hzero, -⟩ := (h.mem_ready id).1 hid
    rw [hq.classAt_of_ne (h.live_of_open hopen).2 hs ha]
    exact ⟨⟨hopen, ha⟩, hzero, fun h => hs (Option.some.inj h).symm⟩
  · rintro ⟨⟨hopen, ha⟩, hzero, hne⟩
    have hs : id ≠ plan.survivor := fun h => hne (congrArg some h.symm)
    rw [hq.classAt_of_ne (h.live_of_open hopen).2 hs ha] at hzero
    exact (h.mem_ready id).2 ⟨hopen, hzero, owner?_ne_of_joins hjoins hs ha⟩

/-- What a class that is waited for became is in the pending list. -/
theorem waiting_of_merged (h : Invariant S n pool closed [u, v] occ cells)
    (hplan : plan.Sound pool.partition) (hjoins : plan.Joins pool.partition v u)
    (hq : Merged pool.partition q plan m) (hid : id ∈ q.openClasses closed)
    (hne : (q.classAt id).pending ≠ 0) : id ∈ pool.pending.map q.resolve := by
  obtain ⟨hsurvivor, habsorbed⟩ := h.open_of_joins hjoins
  obtain ⟨hopen, ha⟩ := (hq.mem_openClasses h.proper.linked hplan).1 hid
  have hpass : ∀ {j}, j ∈ pool.pending.map pool.partition.resolve →
      (if j = plan.absorbed then plan.survivor else j) ∈ pool.pending.map q.resolve := by
    intro j hj
    obtain ⟨x, hx, rfl⟩ := List.mem_map.1 hj
    exact List.mem_map.2 ⟨x, hx, hq.resolve x⟩
  by_cases hs : id = plan.survivor
  · subst hs
    rw [h.proper.pending_survivor hplan hq] at hne
    -- one of the two classes was waited for
    by_cases hzero : (pool.partition.classAt plan.survivor).pending = 0
    · have := hpass (h.waiting _ habsorbed fun hz => hne (by rw [hzero, hz]))
      rwa [if_pos rfl] at this
    · have := hpass (h.waiting _ hsurvivor hzero)
      rwa [if_neg ha] at this
  · rw [hq.classAt_of_ne (h.live_of_open hopen).2 hs ha] at hne
    have := hpass (h.waiting id hopen hne)
    rwa [if_neg ha] at this

/-- The classes of two variables of a cell become one. -/
theorem merge (h : Invariant S n pool closed [u, v] occ (⟨⟨v :: u :: vs⟩, t⟩ :: cells))
    (hplan : plan.Sound pool.partition) (hjoins : plan.Joins pool.partition v u)
    (hm : Multiterm.mergeOption (pool.partition.classAt plan.survivor).term
      (pool.partition.classAt plan.absorbed).term = .ok m)
    (hq : Merged pool.partition q plan m) :
    Invariant S n { pool with partition := q, remaining := pool.remaining - 1 } closed [v] occ
      (⟨⟨v :: vs⟩, t⟩ :: cells) := by
  have hlinked := h.proper.linked
  have hrc := h.readyClasses_of_merged hjoins hq (pool.remaining - 1)
  obtain ⟨hsurvivor, habsorbed⟩ := h.open_of_joins hjoins
  refine ⟨h.proper.of_merged hplan hm hq, h.isClosed.of_merged hlinked hplan hq hsurvivor habsorbed,
    h.occ_lt, fun _ => h.pending_of_merged hplan hjoins hm hq, ?_, ?_, ?_, ?_,
    fun _ => h.waiting_of_merged hplan hjoins hq, ?_⟩
  · rw [hrc]
    exact h.ready_nodup
  · rw [hrc]
    exact h.mem_ready_of_merged hplan hjoins hq
  · rw [hq.openClasses hlinked hplan, List.length_erase_of_mem habsorbed, h.remaining]
  · rw [List.forall_mem_singleton]
    exact ⟨plan.survivor, (hq.mem_openClasses hlinked hplan).2 ⟨hsurvivor, hplan.ne⟩,
      hq.owner?_of_joins hjoins⟩
  · intro M w
    rw [h.asserts, hq.asserts_iff_of_joins h.proper.toWellFormed hplan hm hjoins, and_assoc]
    refine and_congr_right fun _ => ?_
    simp only [List.forall_mem_cons, Cell.Holds, Cell.Describes]
    constructor
    · rintro ⟨⟨d, ⟨h₁, h₂, h₃⟩, ht⟩, hcells⟩
      exact ⟨h₁.trans h₂.symm, ⟨d, ⟨h₁, h₃⟩, ht⟩, hcells⟩
    · rintro ⟨hvu, ⟨d, ⟨h₁, h₃⟩, ht⟩, hcells⟩
      exact ⟨⟨d, ⟨h₁, hvu.symm.trans h₁, h₃⟩, ht⟩, hcells⟩

/-- When the multiterms of the two classes clash, the claims are true in no domain without a clash. -/
theorem refutes_of_merge (h : Invariant S n pool closed held occ (⟨⟨v :: u :: vs⟩, t⟩ :: cells))
    {c : Clash} (hm : Multiterm.mergeOption (pool.partition.classAt plan.survivor).term
      (pool.partition.classAt plan.absorbed).term = .error c)
    (hjoins : plan.Joins pool.partition v u) : Refutes S (.clash c) := by
  refine ⟨⟨c, rfl⟩, fun M w hS => ?_⟩
  obtain ⟨hasserts, hcells⟩ := (h.asserts M w).1 hS
  obtain ⟨d, hd, -⟩ := hcells _ List.mem_cons_self
  have hv : w v = d := hd v (by simp)
  have hu : w u = d := hd u (by simp)
  exact hasserts.hasClash_of_joins hm hjoins (hv.trans hu.symm)

end

end Invariant

end Multiequation.Pool
