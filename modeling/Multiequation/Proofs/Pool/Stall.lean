import Multiequation.Proofs.Pool.Discharge
import Multiequation.Proofs.Variables
import Multiequation.Solve

/-!
# Stalled runs

When classes remain and none of them is ready, each of them is referred to by another one of them.
There are finitely many, so in every domain in which the pool is true the value of each of them lies
on a cycle or below one. Their written members are what is reported, each once and in the order of
their numbers, and there always are some.
-/

namespace Multiequation.Pool

open Multiequation.Partition

variable {S : ∀ M : Domain, (Var → M.Object) → Prop} {n : ℕ} {pool : Pool} {e : Failure}
  {closed : List ClassId} {id : ClassId} {u v : Var} {vars : Variables}

/-! ### The classes that wait -/

/-- When no class is ready, every open class is waited for. -/
theorem Invariant.exists_reference (h : Invariant S n pool closed [] [] [])
    (hready : pool.ready.toList = []) (hid : id ∈ pool.partition.openClasses closed) :
    (pool.partition.classAt id).pending ≠ 0 ∧ ∃ j ∈ pool.partition.openClasses closed,
      ∃ v ∈ Multiterm.varsOfOption (pool.partition.classAt j).term,
        pool.partition.owner? v = some id := by
  have hempty : pool.readyClasses = [] := by rw [readyClasses, hready, List.map_nil]
  have hne : (pool.partition.classAt id).pending ≠ 0 := by
    intro hzero
    have := (h.mem_ready id).2 ⟨hid, hzero, List.forall_mem_nil _⟩
    rw [hempty] at this
    cases this
  refine ⟨hne, ?_⟩
  rw [h.pending id (mem_openClasses.1 hid).1, List.append_nil, Ne, occurrencesOf_eq_zero_iff] at hne
  push Not at hne
  obtain ⟨v, hv, hown⟩ := hne
  obtain ⟨j, hj, hvj⟩ := List.mem_flatMap.1 hv
  exact ⟨j, hj, v, hvj, hown⟩

/-- Nothing waits for what is not a class. -/
theorem lt_size_of_pending_ne_zero {p : Partition} (h : (p.classAt id).pending ≠ 0) :
    (p.resolve id).index < p.records.size := by
  by_contra hge
  refine h ?_
  rw [classAt, contents?, Array.getElem?_eq_none (not_lt.1 hge)]
  rfl

/-- When no class is ready, the open classes are those that wait. -/
theorem Invariant.mem_pendingClasses (h : Invariant S n pool closed [] [] [])
    (hready : pool.ready.toList = []) :
    id ∈ pool.pendingClasses ↔ id ∈ pool.partition.openClasses closed := by
  rw [pendingClasses, List.mem_eraseDups, List.mem_filter, bne_iff_ne]
  constructor
  · rintro ⟨hmem, hne⟩
    obtain ⟨j, -, rfl⟩ := List.mem_map.1 hmem
    have hroot := h.proper.linked.resolve_resolve j
    have hlt := hroot ▸ lt_size_of_pending_ne_zero hne
    exact mem_openClasses.2 ⟨(mem_liveClasses h.proper.linked).2 ⟨hlt, hroot⟩,
      fun hclosed => hne (h.isClosed.pending _ hclosed)⟩
  · intro hid
    obtain ⟨hne, -⟩ := h.exists_reference hready hid
    exact ⟨h.waiting id hid hne, hne⟩

theorem Stalled.live_of_pending (h : Stalled S n e pool) :
    ∀ id ∈ pool.pendingClasses, id ∈ pool.partition.liveClasses := by
  obtain ⟨closed, hinv⟩ := h.invariant
  exact fun id hid => (mem_openClasses.1 ((hinv.mem_pendingClasses h.ready).1 hid)).1

theorem Stalled.pendingClasses_ne_nil (h : Stalled S n e pool) : pool.pendingClasses ≠ [] := by
  obtain ⟨closed, hinv⟩ := h.invariant
  have hne : pool.partition.openClasses closed ≠ [] := by
    intro hnil
    refine h.remaining ?_
    rw [hinv.remaining, hnil, List.length_nil]
  obtain ⟨id, hid⟩ := List.exists_mem_of_ne_nil _ hne
  exact List.ne_nil_of_mem ((hinv.mem_pendingClasses h.ready).2 hid)

/-- Every waiting class is referred to by a waiting class. -/
theorem Stalled.exists_reference (h : Stalled S n e pool) (hid : id ∈ pool.pendingClasses) :
    ∃ j ∈ pool.pendingClasses, ∃ v ∈ Multiterm.varsOfOption (pool.partition.classAt j).term,
      v.index < n ∧ pool.partition.owner? v = some id := by
  obtain ⟨closed, hinv⟩ := h.invariant
  have hopen := (hinv.mem_pendingClasses h.ready).1 hid
  obtain ⟨-, j, hj, v, hv, hown⟩ := hinv.exists_reference h.ready hopen
  exact ⟨j, (hinv.mem_pendingClasses h.ready).2 hj, v, hv, hinv.proper.vars_lt hv, hown⟩

/-! ### Cycles -/

/-- In a finite transitive relation without minimal elements everything has something reflexive
below it. -/
theorem exists_reflexive_below {α : Type} [Finite α] {r : α → α → Prop}
    (htrans : ∀ {i j k}, r i j → r j k → r i k) (hbelow : ∀ i, ∃ j, r j i) (i : α) :
    ∃ j, r j j ∧ r j i := by
  by_contra hno
  push Not at hno
  let s : {j // r j i} → {j // r j i} → Prop := fun j k => r j k
  have : IsTrans _ s := ⟨fun _ _ _ => htrans⟩
  have : Std.Irrefl s := ⟨fun j hj => hno j hj j.2⟩
  obtain ⟨j, hj⟩ := hbelow i
  obtain ⟨m, -, hmin⟩ := (Finite.wellFounded_of_trans_of_irrefl s).has_min Set.univ
    ⟨⟨j, hj⟩, trivial⟩
  obtain ⟨k, hk⟩ := hbelow m
  exact hmin ⟨k, htrans hk m.2⟩ trivial hk

/-- In every domain in which the claims are true, the value of a waiting class lies on a cycle or
below one. -/
theorem Stalled.exists_cycle (h : Stalled S n e pool) {M : Domain} {w : Var → M.Object}
    (hS : S M w) (hid : id ∈ pool.pendingClasses) (hv : pool.partition.owner? v = some id) :
    ∃ d, Relation.TransGen M.Arg d d ∧ Relation.TransGen M.Arg d (w v) := by
  have hasserts : Asserts M w pool.partition := by
    obtain ⟨closed, hinv⟩ := h.invariant
    exact ((hinv.asserts M w).1 hS).1
  have hmember : ∀ i : {id // id ∈ pool.pendingClasses},
      ∃ u, pool.partition.owner? u = some i.1 := by
    rintro ⟨i, hi⟩
    obtain ⟨-, -, u, -, -, hu⟩ := h.exists_reference hi
    exact ⟨u, hu⟩
  choose member hmember using hmember
  -- the value of one class lies below that of another one
  have hbelow : ∀ i, ∃ j, Relation.TransGen M.Arg (w (member j)) (w (member i)) := by
    rintro ⟨i, hi⟩
    obtain ⟨j, hj, u, hu, -, hown⟩ := h.exists_reference hi
    obtain ⟨t, ht⟩ : ∃ t, (pool.partition.classAt j).term = some t := by
      cases ht : (pool.partition.classAt j).term with
      | none => rw [ht] at hu; cases hu
      | some t => exact ⟨t, rfl⟩
    rw [ht] at hu
    have hterm := hasserts.term (hmember ⟨j, hj⟩)
    rw [ht, Multiterm.optionDescribes_some] at hterm
    have := Multiterm.below_of_mem_vars hterm hu
    rw [hasserts.eq hown (hmember ⟨i, hi⟩)] at this
    exact ⟨⟨j, hj⟩, this⟩
  obtain ⟨j, hcycle, hj⟩ := exists_reflexive_below Relation.TransGen.trans hbelow ⟨id, hid⟩
  rw [hasserts.eq (hmember ⟨id, hid⟩) hv] at hj
  exact ⟨_, hcycle, hj⟩

/-- A stall shows a cycle in every domain in which the claims are true. -/
theorem Stalled.hasCycle (h : Stalled S n e pool) {M : Domain} {w : Var → M.Object} (hS : S M w) :
    M.HasCycle := by
  obtain ⟨id, hid⟩ := List.exists_mem_of_ne_nil _ h.pendingClasses_ne_nil
  obtain ⟨-, -, v, -, -, hv⟩ := h.exists_reference hid
  obtain ⟨d, hd, -⟩ := h.exists_cycle hS hid hv
  exact ⟨d, hd⟩

/-! ### What is reported -/

/-- The written members of the waiting classes are reported. -/
theorem Stalled.mem_stuckVars (h : Stalled S n e pool) (hvars : vars.names.length = n) :
    v ∈ pool.stuckVars vars ↔
      v.index < n ∧ ∃ id ∈ pool.pendingClasses, pool.partition.owner? v = some id := by
  have hshown : vars.isHidden v = false ↔ v.index < n := by simp [Variables.isHidden, hvars]
  have hmem : v ∈ pool.stuckVars vars ↔ v ∈ (pool.pendingClasses.flatMap fun id =>
      (pool.partition.classAt id).members.toList).filter fun v => !vars.isHidden v := by
    obtain ⟨i⟩ := v
    rw [stuckVars, List.mem_map_of_injective fun _ _ => Var.mk.inj, List.mem_mergeSort]
    exact List.mem_map_of_injective (a := ⟨i⟩) Var.index_injective
  rw [hmem, List.mem_filter, List.mem_flatMap, Bool.not_eq_true', hshown, and_comm]
  refine and_congr_right fun _ => exists_congr fun id => and_congr_right fun hid => ?_
  obtain ⟨closed, hinv⟩ := h.invariant
  exact hinv.proper.mem_members_of_live (h.live_of_pending id hid)

/-- They are reported in the order of their numbers, and none of them twice. -/
theorem Stalled.pairwise_stuckVars (h : Stalled S n e pool) (vars : Variables) :
    (pool.stuckVars vars).Pairwise fun u v => u.index < v.index := by
  obtain ⟨closed, hinv⟩ := h.invariant
  have hmembers := hinv.proper.nodup_flatMap_members (nodup_eraseDups _) h.live_of_pending
  have hnumbers := (hmembers.filter fun v => !vars.isHidden v).map Var.index_injective
  have hsorted := List.pairwise_mergeSort' (· ≤ ·) (((pool.pendingClasses.flatMap fun id =>
    (pool.partition.classAt id).members.toList).filter fun v => !vars.isHidden v).map Var.index)
  rw [stuckVars, List.pairwise_map]
  exact (hsorted.and ((List.mergeSort_perm _ _).nodup_iff.2 hnumbers)).imp
    fun ⟨hle, hne⟩ => lt_of_le_of_ne hle hne

/-- A stall always has written variables to report. -/
theorem Stalled.stuckVars_ne_nil (h : Stalled S n e pool) (hvars : vars.names.length = n) :
    pool.stuckVars vars ≠ [] := by
  obtain ⟨id, hid⟩ := List.exists_mem_of_ne_nil _ h.pendingClasses_ne_nil
  obtain ⟨-, -, v, -, hlt, hv⟩ := h.exists_reference hid
  exact List.ne_nil_of_mem ((h.mem_stuckVars hvars).2 ⟨hlt, id, hid, hv⟩)

end Multiequation.Pool
