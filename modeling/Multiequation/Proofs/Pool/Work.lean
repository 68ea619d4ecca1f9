import Multiequation.Proofs.Pool.Settle

/-!
# The work of a pool

A class enters the ready queue when an occurrence has been paid off. So the entries of the queue and the
pending counts together measure what a pool has left to do: a discharge takes an entry, a cell that is
folded back pays off an occurrence before it adds an entry, and a merge adds no pending count, not even
where the sum of two counts wraps around. A run ends therefore whatever the number of remaining classes
says, and the bound on its length is never what ends it.
-/

namespace Multiequation

namespace Partition

variable {p q : Partition} {id root : ClassId} {cls : Class}

/-! ### The sum of the pending counts -/

theorem debt_eq_sum (p : Partition) :
    p.debt = (p.liveClasses.map fun id => (p.classAt id).pending).sum := by
  rw [List.sum_eq_foldr, List.foldr_map, debt]

/-- The sum is that of one class and of the others. -/
theorem debt_eq (hid : id ∈ p.liveClasses) : p.debt = (p.classAt id).pending +
    ((p.liveClasses.erase id).map fun j => (p.classAt j).pending).sum := by
  rw [debt_eq_sum, ((List.perm_cons_erase hid).map _).sum_eq, List.map_cons, List.sum_cons]

/-- A class that changes its count changes the sum by as much. -/
theorem Updated.debt_add (h : Updated p q root cls) (hp : p.Linked) (hroot : root ∈ p.liveClasses) :
    q.debt + (p.classAt root).pending = p.debt + cls.pending := by
  have hlive := h.liveClasses hp
  have hclassAt : ∀ j ∈ p.liveClasses, q.classAt j = if j = root then cls else p.classAt j := by
    intro j hj
    rw [h.classAt, ((mem_liveClasses hp).1 hj).2]
  have hothers : (p.liveClasses.erase root).map (fun j => (q.classAt j).pending) =
      (p.liveClasses.erase root).map fun j => (p.classAt j).pending := by
    refine List.map_congr_left fun j hj => ?_
    obtain ⟨hne, hj⟩ := p.nodup_liveClasses.mem_erase_iff.1 hj
    rw [hclassAt j hj, if_neg hne]
  rw [debt_eq (hlive ▸ hroot : root ∈ q.liveClasses), debt_eq hroot, hlive, hothers,
    hclassAt root hroot, if_pos rfl]
  omega

/-- The sum is that of two classes of which one is to absorb the other and of the rest. -/
theorem Absorption.Sound.debt_eq {plan : Absorption} (h : plan.Sound p) (hp : p.Linked) :
    p.debt = (p.classAt plan.survivor).pending + (p.classAt plan.absorbed).pending +
      (((p.liveClasses.erase plan.absorbed).erase plan.survivor).map
        fun j => (p.classAt j).pending).sum := by
  have hs : plan.survivor ∈ p.liveClasses.erase plan.absorbed :=
    p.nodup_liveClasses.mem_erase_iff.2 ⟨h.ne, h.survivor_mem hp⟩
  rw [Partition.debt_eq (h.absorbed_mem hp), ((List.perm_cons_erase hs).map _).sum_eq, List.map_cons,
    List.sum_cons]
  omega

/-- A merge adds nothing to the sum; it takes something off where the counts wrap around. -/
theorem Merged.debt_le {plan : Absorption} {term : Option Multiterm} (h : Merged p q plan term)
    (hp : p.Linked) (hplan : plan.Sound p) : q.debt ≤ p.debt := by
  have hs : plan.survivor ∈ p.liveClasses.erase plan.absorbed :=
    p.nodup_liveClasses.mem_erase_iff.2 ⟨hplan.ne, hplan.survivor_mem hp⟩
  have hothers : ((p.liveClasses.erase plan.absorbed).erase plan.survivor).map
        (fun j => (q.classAt j).pending) =
      ((p.liveClasses.erase plan.absorbed).erase plan.survivor).map
        fun j => (p.classAt j).pending := by
    refine List.map_congr_left fun j hj => ?_
    obtain ⟨hjs, hj⟩ := (p.nodup_liveClasses.erase _).mem_erase_iff.1 hj
    obtain ⟨hja, hj⟩ := p.nodup_liveClasses.mem_erase_iff.1 hj
    rw [h.classAt_of_ne ((Partition.mem_liveClasses hp).1 hj).2 hjs hja]
  have hsum := p.arithmetic.add_le (p.classAt plan.survivor).pending
    (p.classAt plan.absorbed).pending
  have hlive := h.liveClasses hp hplan
  rw [debt_eq (hlive ▸ hs : plan.survivor ∈ q.liveClasses), hlive, hothers,
    h.pending_survivor hplan, hplan.debt_eq hp]
  omega

end Partition

namespace Pool

open Multiequation.Partition

variable {pool pool' : Pool} {id a b : ClassId} {u v : Var} {w w' : ℕ}

/-- The pool is well-formed and has at most `w` left to do. -/
structure Within (w : ℕ) (pool : Pool) : Prop where
  wellFormed : pool.partition.WellFormed
  work_le : pool.work ≤ w

namespace Within

/-- What is left to do follows the sum of the pending counts as long as the ready queue stays. -/
theorem of_debt (h : Within w pool) (hp : pool'.partition.WellFormed)
    (hready : pool'.ready = pool.ready)
    (hdebt : pool'.partition.debt + w ≤ pool.partition.debt + w') : Within w' pool' where
  wellFormed := hp
  work_le := by
    have hwork := h.work_le
    rw [work] at hwork ⊢
    rw [hready]
    omega

theorem of_similar (h : Within w pool) (hq : Similar pool.partition pool'.partition)
    (hready : pool'.ready = pool.ready) : Within w pool' :=
  h.of_debt (hq.wellFormed h.wellFormed) hready (by rw [hq.debt h.wellFormed.linked])

/-- A class may get another multiterm. -/
theorem of_term (h : Within w pool) (hid : id.index < pool.partition.records.size)
    {term : Option Multiterm} (hq : Updated pool.partition pool'.partition
      (pool.partition.resolve id) { pool.partition.classAt id with term })
    (hready : pool'.ready = pool.ready) : Within w pool' := by
  have hlinked := h.wellFormed.linked
  have hclass := classAt_resolve hlinked id
  have hdebt := hq.debt_add hlinked (hlinked.resolve_mem_liveClasses hid)
  rw [hclass] at hdebt
  refine h.of_debt (hq.wellFormed h.wellFormed (hlinked.resolve_resolve id) ?_ ?_) hready ?_
  · rw [hclass]
  · rw [hclass]
  · simp only at hdebt
    omega

/-! ### Folding a frontier back -/

theorem find_ends (h : Within w pool) (a : ClassId) :
    Ends (find a) pool (fun _ pool' => Within w pool') fun _ _ => True := by
  refine (Pool.find_ends h.wellFormed.linked a).mono ?_ fun _ _ h => h
  rintro _ _ ⟨-, q, hq, rfl⟩
  exact h.of_similar hq rfl

/-- An occurrence that is paid off is one thing less to do. -/
theorem payOffVar_ends (h : Within w pool) (v : Var) :
    Ends (payOffVar v) pool
      (fun id pool' => pool'.partition.owner? v = some id ∧
        pool'.partition.owner? = pool.partition.owner? ∧
        ∃ k, w = k + 1 ∧ Within k pool')
      fun _ _ => True := by
  have hlinked := h.wellFormed.linked
  refine lift_ends (Ends.bind ((hlinked.findOwner_leaves v).mono (fun _ _ h => h)
    fun _ _ _ => trivial) ?_)
  rintro root q₁ ⟨hv, hq₁⟩
  obtain ⟨hlt, hroot⟩ := h.wellFormed.owner_live hv
  refine Ends.bind ((hq₁.linked.payOff_leaves (hq₁.size ▸ hlt)).mono (fun _ _ h => h)
    fun _ _ _ => trivial) ?_
  rintro n q₂ ⟨hn, hq₂⟩
  rw [hq₁.resolve, hroot, hq₁.classAt] at hq₂
  rw [hq₁.classAt] at hn
  have hq := hq₁.trans_updated hq₂
  have hdebt := hq.debt_add hlinked ((mem_liveClasses hlinked).2 ⟨hlt, hroot⟩)
  have hle := debt_eq ((mem_liveClasses hlinked).2 ⟨hlt, hroot⟩)
  have hwork := h.work_le
  rw [work] at hwork
  simp only at hdebt
  refine ends_pure ⟨by rw [hq.owner, hv], hq.owner, w - 1, by omega, h.of_debt ?_ rfl ?_⟩
  · exact hq.wellFormed h.wellFormed hroot rfl rfl
  · dsimp only
    omega

theorem mergeClasses_ends (h : Within w pool) (hv : pool.partition.owner? v = some a)
    (hu : pool.partition.owner? u = some b) :
    Ends (mergeClasses a b) pool
      (fun id pool' => pool'.partition.owner? v = some id ∧ Within w pool') fun _ _ => True := by
  have ha := (h.wellFormed.owner_live hv).2
  have hb := (h.wellFormed.owner_live hu).2
  refine (Pool.mergeClasses_ends h.wellFormed (ha.symm ▸ hv) (hb.symm ▸ hu)).mono ?_
    fun _ _ _ => trivial
  rintro id pool' ⟨hready, -, ⟨-, hid, -, hq⟩ | ⟨-, -, plan, m, hplan, hjoins, rfl, -, hq⟩⟩
  · exact ⟨by rw [hq.owner, hv, hid, ha], h.of_similar hq hready⟩
  · have hdebt := hq.debt_le h.wellFormed.linked hplan
    exact ⟨hq.owner?_of_joins hjoins,
      h.of_debt (hq.wellFormed h.wellFormed hplan) hready (Nat.add_le_add_right hdebt w)⟩

theorem join_ends (h : Within w pool) (hv : pool.partition.owner? v = some a) (u : Var) :
    Ends (join a u) pool
      (fun id pool' => pool'.partition.owner? v = some id ∧ Within w pool') fun _ _ => True := by
  refine Ends.bind (h.payOffVar_ends u) ?_
  rintro b pool₁ ⟨hu, howner, k, rfl, h₁⟩
  have h₁ : Within (k + 1) pool₁ := ⟨h₁.wellFormed, h₁.work_le.trans (Nat.le_succ k)⟩
  have hv₁ : pool₁.partition.owner? v = some a := by rw [howner, hv]
  split_ifs
  · exact ends_pure ⟨hv₁, h₁⟩
  · exact h₁.mergeClasses_ends hv₁ hu

theorem commit_ends (h : Within w pool) (hv : pool.partition.owner? v = some a)
    (t : Option Multiterm) :
    Ends (t.forM fun term => onPartition (Partition.commit a term)) pool
      (fun _ pool' => Within w pool') fun _ _ => True := by
  cases t with
  | none => exact ends_pure h
  | some t =>
    have hlt := (h.wellFormed.owner_live hv).1
    refine lift_ends ((h.wellFormed.linked.commit_ends hlt t).mono ?_ fun _ _ _ => trivial)
    rintro _ q ⟨m, -, hq⟩
    exact h.of_term hlt hq rfl

/-- A cell that is folded back pays off an occurrence for the entry that it may add to the queue. -/
theorem settle_ends (h : Within w pool) (c : Cell) :
    Ends (settle c) pool (fun _ pool' => Within w pool') fun _ _ => True := by
  refine Ends.bind (P := fun _ s => s = pool) ?_ ?_
  · cases c.vars.dequeue with
    | error e => exact ends_throw trivial
    | ok front => exact ends_pure rfl
  rintro ⟨v, vs⟩ _ rfl
  refine Ends.bind (h.payOffVar_ends v) ?_
  rintro a pool₁ ⟨hv, -, k, rfl, h₁⟩
  refine Ends.bind (Ends.foldlM (fun a _ s => s.partition.owner? v = some a ∧ Within k s)
    (fun a u _ s hs => hs.2.join_ends hs.1 u) vs.toList ⟨hv, h₁⟩) ?_
  rintro a pool₂ ⟨hv₂, h₂⟩
  refine Ends.bind (h₂.commit_ends hv₂ c.term) fun _ pool₃ h₃ => ?_
  refine ends_get_bind ?_
  split_ifs
  · refine record_bind_ends (ends_modify ⟨h₃.wellFormed, ?_⟩)
    have hwork := h₃.work_le
    simp only [work, Queue.enqueue, Queue.length, List.length_append, List.length_singleton]
      at hwork ⊢
    omega
  · exact ends_pure ⟨h₃.wellFormed, h₃.work_le.trans (Nat.le_succ k)⟩

theorem compact_ends (h : Within w pool) (cells : List Cell) :
    Ends (compact cells) pool (fun _ pool' => Within w pool') fun _ _ => True := by
  refine Ends.bind (Ends.forM (fun _ s => Within w s) (fun c _ s hs => hs.settle_ends c) _ h) ?_
  intro _ pool₁ h₁
  refine ends_get_bind (record_ends ?_)
  exact h₁.of_similar (.refl h₁.wellFormed.linked) rfl

end Within

/-! ### Discharging -/

/-- The first half of a discharge: the next ready class is taken and its multiterm is peeled. If it
has a multiterm, the frontier is left to be folded back. -/
def openNext : PoolM (ClassId × Option (List Cell)) := do
  let id ← selectReady
  match ← onPartition (modifyGet (·.takeTerm id)) with
  | none => return (id, none)
  | some term =>
    let frontier ← MonadExcept.ofExcept term.peel.frontier
    record (.peeled id frontier.length)
    onPartition (Partition.commit id term.peel.kept)
    return (id, some frontier)

theorem dischargeNext_eq : dischargeNext =
    openNext >>= fun r => r.2.forM compact >>= fun _ => find r.1 := by
  simp only [dischargeNext, openNext, peelClass, bind_assoc]
  refine bind_congr fun id => bind_congr fun term => ?_
  cases term with
  | none => simp [Option.forM]
  | some term => simp [Option.forM]

theorem selectReady_of_nil (hready : pool.ready.toList = []) :
    selectReady pool = .error (.noReadyClasses pool.remaining) pool := by
  rw [selectReady, get_bind, Queue.dequeue, hready]
  rfl

/-- Selecting takes the first ready class off the queue and changes nothing else that can be
observed. -/
theorem selectReady_ends {x : ClassId} {rest : List ClassId} (hp : pool.partition.Linked)
    (hready : pool.ready.toList = x :: rest) : Ends selectReady pool
      (fun id s => id = pool.partition.resolve x ∧ ∃ p journal, Similar pool.partition p ∧
        s = ⟨p, pool.remaining - 1, ⟨rest⟩, pool.pending, journal⟩) fun _ _ => False := by
  refine ends_get_bind ?_
  simp only [Queue.dequeue, hready]
  refine ends_set_bind ?_
  refine Ends.bind_of_eq_ok (b := pool.partition.resolve x) rfl ?_
  refine record_bind_ends ?_
  exact ends_pure ⟨rfl, _, _, hp.similar_find x, rfl⟩

namespace Within

/-- Taking the multiterm of a class leaves no more to do than there was. A number that is not that of a
class has none. -/
theorem takeTerm_ends (h : Within w pool) (id : ClassId) :
    Ends (onPartition (modifyGet (·.takeTerm id))) pool
      (fun term pool' => Within w pool' ∧
        (term.isSome → id.index < pool'.partition.records.size)) fun _ _ => True := by
  by_cases hid : id.index < pool.partition.records.size
  · have htake := h.wellFormed.linked.updated_takeTerm hid
    exact lift_ends (ends_modifyGet ⟨h.of_term hid htake rfl, fun _ => htake.size ▸ hid⟩)
  · have htake : pool.partition.takeTerm id = (none, pool.partition) := by
      rw [takeTerm, classAt_of_ge (not_lt.1 hid), update_of_ge (not_lt.1 hid)]
      rfl
    refine lift_ends (ends_modifyGet ?_)
    rw [htake]
    exact ⟨h, nofun⟩

/-- Opening a class leaves less to do than there was. -/
theorem openNext_ends (h : Within w pool) :
    Ends openNext pool (fun _ pool' => ∃ k, w = k + 1 ∧ Within k pool') fun _ _ => True := by
  have hwork := h.work_le
  cases hready : pool.ready.toList with
  | nil =>
    refine Ends.bind (P := fun _ _ => False) ?_ fun _ _ hfalse => hfalse.elim
    exact .of_eq_error (selectReady_of_nil hready) trivial
  | cons x rest =>
    refine Ends.bind ((selectReady_ends h.wellFormed.linked hready).safe fun _ _ h => h) ?_
    rintro id _ ⟨-, p, journal, hp, rfl⟩
    rw [work, Queue.length, hready, List.length_cons] at hwork
    have hdebt := hp.debt h.wellFormed.linked
    have h₁ : Within (w - 1) ⟨p, pool.remaining - 1, ⟨rest⟩, pool.pending, journal⟩ := by
      refine ⟨hp.wellFormed h.wellFormed, ?_⟩
      simp only [work, Queue.length, hdebt]
      omega
    refine (Ends.bind (h₁.takeTerm_ends id) ?_).mono (fun _ _ h₂ => ⟨w - 1, by omega, h₂⟩)
      fun _ _ h => h
    rintro term pool₂ ⟨h₂, hid⟩
    cases term with
    | none => exact ends_pure h₂
    | some term =>
      refine Ends.bind (P := fun _ s => s = pool₂) ?_ ?_
      · cases term.peel.frontier with
        | error e => exact ends_throw trivial
        | ok frontier => exact ends_pure rfl
      rintro frontier _ rfl
      refine record_bind_ends ?_
      have hcommit := h₂.wellFormed.linked.commit_ends (hid rfl) term.peel.kept
      refine Ends.bind (P := fun _ s => Within (w - 1) s)
        (lift_ends (hcommit.mono ?_ fun _ _ _ => trivial)) fun _ _ h₃ => ends_pure h₃
      rintro _ q ⟨m, -, hq⟩
      exact h₂.of_term (hid rfl) hq rfl

/-- A discharge leaves less to do than there was. -/
theorem dischargeNext_ends (h : Within w pool) :
    Ends dischargeNext pool (fun _ pool' => ∃ k, w = k + 1 ∧ Within k pool') fun _ _ => True := by
  rw [dischargeNext_eq]
  refine Ends.bind h.openNext_ends ?_
  rintro ⟨id, frontier⟩ pool₁ ⟨k, rfl, h₁⟩
  refine Ends.bind (P := fun _ s => Within k s) ?_ fun _ pool₂ h₂ => ?_
  · cases frontier with
    | none => exact ends_pure h₁
    | some frontier => exact h₁.compact_ends frontier
  · exact (h₂.find_ends id).mono (fun _ _ h₃ => ⟨k, rfl, h₃⟩) fun _ _ h => h

/-- Bounds that are more than there is to do bound nothing. -/
theorem dischargeUpTo_eq (h : Within w pool) {m n : ℕ} (hm : w < m) (hn : w < n) :
    dischargeUpTo m pool = dischargeUpTo n pool := by
  induction m generalizing pool w n with
  | zero => exact absurd hm (Nat.not_lt_zero w)
  | succ m ih =>
    obtain ⟨n, rfl⟩ := Nat.exists_eq_add_one_of_ne_zero (Nat.ne_zero_of_lt hn)
    rw [dischargeUpTo, dischargeUpTo, get_bind, get_bind]
    split_ifs with hzero
    · rfl
    · have hnext := h.dischargeNext_ends
      simp only [bind, EStateM.bind]
      cases hrun : dischargeNext pool with
      | error e pool' => rfl
      | ok id pool' =>
        obtain ⟨k, rfl, h'⟩ := hnext.of_ok hrun
        dsimp only
        rw [ih h' (by omega) (by omega : k < n)]

end Within

/-- Classes are discharged until none remains or one of the discharges fails: the loop has no bound. -/
theorem discharge_eq (h : pool.partition.WellFormed) : discharge pool =
    (do
      if (← get).remaining = 0 then
        return []
      let id ← dischargeNext
      return id :: (← discharge) : PoolM (List ClassId)) pool := by
  have hpool : Within pool.work pool := ⟨h, le_rfl⟩
  rw [discharge, get_bind, dischargeUpTo, get_bind, get_bind]
  split_ifs with hzero
  · rfl
  · have hnext := hpool.dischargeNext_ends
    simp only [bind, EStateM.bind]
    cases hrun : dischargeNext pool with
    | error e pool' => rfl
    | ok id pool' =>
      obtain ⟨k, hk, h'⟩ := hnext.of_ok hrun
      have hself : Within pool'.work pool' := ⟨h'.wellFormed, le_rfl⟩
      have hloop := hself.dischargeUpTo_eq (m := pool.work) (n := pool'.work + 1)
        (hk ▸ Nat.lt_succ_of_le h'.work_le) (Nat.lt_succ_self _)
      dsimp only
      rw [hloop]
      rfl

end Pool

end Multiequation
