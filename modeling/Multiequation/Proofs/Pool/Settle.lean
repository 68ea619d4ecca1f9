import Multiequation.Proofs.Pool.Steps

/-!
# Folding a frontier back

Each cell of a frontier keeps the invariant: its first variable is paid off, then every other one is
paid off and its class is merged, then the multiterm is committed and the class is released. Only a
clash can stop this, and then the claims that the run began with are true in no domain without a
clash.
-/

namespace Multiequation.Pool

open Multiequation.Partition

variable {S : ∀ M : Domain, (Var → M.Object) → Prop} {n : ℕ} {pool : Pool}
  {closed : List ClassId} {held occ : List Var} {cells : List Cell} {a b root : ClassId}
  {u v : Var}

theorem find_ends {R : Failure → Pool → Prop} (h : pool.partition.Linked) (a : ClassId) :
    Ends (find a) pool
      (fun id pool' => id = pool.partition.resolve a ∧
        ∃ q, Similar pool.partition q ∧ pool' = { pool with partition := q }) R := by
  unfold find
  exact lift_ends (ends_modifyGet ⟨rfl, _, h.similar_find a, rfl⟩)

theorem record_ends {e : Event} {Q : PUnit → Pool → Prop} {R : Failure → Pool → Prop}
    (h : Q ⟨⟩ { pool with journal := pool.journal.push e }) : Ends (record e) pool Q R :=
  ends_modify h

theorem record_bind_ends {α : Type} {e : Event} {f : PUnit → PoolM α} {Q : α → Pool → Prop}
    {R : Failure → Pool → Prop}
    (h : Ends (f ⟨⟩) { pool with journal := pool.journal.push e } Q R) :
    Ends (record e >>= f) pool Q R :=
  ends_modify_bind h

theorem forM_record_ends {R : Failure → Pool → Prop} (e : Option Event) :
    Ends (e.forM record) pool (fun _ s => ∃ journal, s = { pool with journal }) R := by
  cases e with
  | none => exact ends_pure ⟨_, rfl⟩
  | some e => exact record_ends ⟨_, rfl⟩

/-- Finding a class keeps the invariant. -/
theorem Invariant.find_ends (h : Invariant S n pool closed held occ cells) (a : ClassId) :
    Ends (find a) pool
      (fun id pool' => id = pool.partition.resolve a ∧ Similar pool.partition pool'.partition ∧
        Invariant S n pool' closed held occ cells)
      fun e _ => Refutes S e := by
  refine (Pool.find_ends h.proper.linked a).mono ?_ fun _ _ h => h
  rintro _ _ ⟨rfl, q, hq, rfl⟩
  exact ⟨rfl, hq, h.of_similar hq rfl rfl rfl⟩

/-! ### The variables of a cell -/

/-- Paying off an occurrence that is still to come can not fail. -/
theorem Invariant.payOffVar_ends (h : Invariant S n pool closed held (v :: occ) cells) :
    Ends (payOffVar v) pool
      (fun id pool' => pool'.partition.owner? v = some id ∧
        pool'.partition.owner? = pool.partition.owner? ∧
        Invariant S n pool' closed (v :: held) occ cells)
      fun e _ => Refutes S e := by
  obtain ⟨root, k, hv, hroot, hk⟩ := h.exists_pending
  obtain ⟨hlt, hresolve⟩ := h.live_of_open hroot
  refine lift_ends (Ends.bind ((h.proper.linked.findOwner_ends hv).safe fun _ _ h => h) ?_)
  rintro _ q₁ ⟨rfl, hq₁⟩
  rename_i root
  have hk₁ : (q₁.classAt root).pending = k + 1 := by rw [hq₁.classAt, hk]
  have hpay := hq₁.linked.payOff_ends (by rwa [hq₁.size]) hk₁
  refine Ends.bind (hpay.safe fun _ _ h => h) fun _ q₂ hq₂ => ends_pure ?_
  rw [hq₁.resolve, hresolve, hq₁.classAt] at hq₂
  have hq := hq₁.trans_updated hq₂
  exact ⟨by rw [hq.owner, hv], hq.owner, h.payOff hv hroot hk hq⟩

/-- Merging two classes of a pool merges them in its partition, and when they were two, one class less
is counted. The ready queue and the pending list stay as they are. -/
theorem mergeClasses_ends (hp : pool.partition.WellFormed)
    (hv : pool.partition.owner? v = some (pool.partition.resolve a))
    (hu : pool.partition.owner? u = some (pool.partition.resolve b)) :
    Ends (mergeClasses a b) pool
      (fun id pool' => pool'.ready = pool.ready ∧ pool'.pending = pool.pending ∧
        ((pool.partition.resolve a = pool.partition.resolve b ∧
          id = pool.partition.resolve a ∧ pool'.remaining = pool.remaining ∧
          Similar pool.partition pool'.partition) ∨
        (pool.partition.resolve a ≠ pool.partition.resolve b ∧
          pool'.remaining = pool.partition.arithmetic.pred pool.remaining ∧
          Unites pool.partition pool'.partition v u id)))
      fun e _ => ∃ (plan : Absorption) (c : _), plan.Joins pool.partition v u ∧ e = .clash c ∧
        Multiterm.mergeOption (pool.partition.classAt plan.survivor).term
          (pool.partition.classAt plan.absorbed).term = .error c := by
  refine Ends.bind (find_ends hp.linked a) ?_
  rintro _ _ ⟨rfl, q₁, hq₁, rfl⟩
  refine Ends.bind (find_ends hq₁.linked b) ?_
  rintro _ _ ⟨rfl, q₂, hq₂, rfl⟩
  replace hq₂ := hq₁.trans hq₂
  rw [show q₁.resolve b = pool.partition.resolve b from congrFun hq₁.resolve b]
  refine ends_get_bind ?_
  refine Ends.bind (forM_record_ends _) ?_
  rintro _ _ ⟨journal, rfl⟩
  refine Ends.bind (P := fun id s => ∃ q, s = { pool with partition := q, journal } ∧
    ((pool.partition.resolve a = pool.partition.resolve b ∧ id = pool.partition.resolve a ∧
      Similar pool.partition q) ∨ Unites pool.partition q v u id))
    (lift_ends ((hp.merge_ends hv hu hq₂).mono (fun _ q hq => ⟨q, rfl, hq⟩) fun _ _ h => h)) ?_
  · rintro id _ ⟨q, rfl, ⟨hab, hid, hq⟩ | hq⟩
    · rw [if_neg (not_not.2 hab)]
      exact ends_pure ⟨rfl, rfl, .inl ⟨hab, hid, rfl, hq⟩⟩
    · have hab := hq.ne hv hu
      rw [if_pos hab]
      refine ends_modify_bind ?_
      exact ends_pure ⟨rfl, rfl, .inr ⟨hab, congrArg (·.pred pool.remaining) hq.arithmetic, hq⟩⟩

/-- Merging the classes of two variables of a cell counts as one class less. -/
theorem Invariant.mergeClasses_ends {vs : List Var} {t : Option Multiterm}
    (h : Invariant S n pool closed [u, v] occ (⟨⟨v :: u :: vs⟩, t⟩ :: cells))
    (hv : pool.partition.owner? v = some a) (hu : pool.partition.owner? u = some b)
    (hab : b ≠ a) :
    Ends (mergeClasses a b) pool
      (fun id pool' => pool'.partition.owner? v = some id ∧
        Invariant S n pool' closed [v] occ (⟨⟨v :: vs⟩, t⟩ :: cells))
      fun e _ => Refutes S e := by
  have ha := (h.proper.owner_live hv).2
  have hb := (h.proper.owner_live hu).2
  refine (Pool.mergeClasses_ends h.proper.toWellFormed (ha.symm ▸ hv) (hb.symm ▸ hu)).mono ?_ ?_
  · rintro _ pool' ⟨hready, hpending, ⟨hsame, -⟩ |
      ⟨-, hremaining, plan, m, hplan, hjoins, rfl, hm, hq⟩⟩
    · exact absurd (hb.symm.trans (hsame.symm.trans ha)) hab
    · rw [h.proper.arithmetic, Arithmetic.pred] at hremaining
      exact ⟨hq.owner?_of_joins hjoins, (h.merge hplan hjoins hm hq).of_similar (.refl hq.linked)
        hready hremaining hpending⟩
  · rintro _ _ ⟨plan, c, hjoins, rfl, hm⟩
    exact h.refutes_of_merge hm hjoins

/-- One more variable of a cell joins the class of the first one. -/
theorem Invariant.join_ends {vs : List Var} {t : Option Multiterm}
    (h : Invariant S n pool closed [v] (u :: occ) (⟨⟨v :: u :: vs⟩, t⟩ :: cells))
    (hv : pool.partition.owner? v = some a) :
    Ends (join a u) pool
      (fun id pool' => pool'.partition.owner? v = some id ∧
        Invariant S n pool' closed [v] occ (⟨⟨v :: vs⟩, t⟩ :: cells))
      fun e _ => Refutes S e := by
  refine Ends.bind h.payOffVar_ends ?_
  rintro b pool₁ ⟨hu, howner, h₁⟩
  have hv₁ : pool₁.partition.owner? v = some a := by rw [howner, hv]
  split_ifs with hab
  · subst hab
    exact ends_pure ⟨hv₁, h₁.hold_first hu hv₁⟩
  · exact h₁.mergeClasses_ends hv₁ hu hab

/-! ### Cells -/

/-- The multiterm of a cell is committed to the class of its variable. -/
theorem Invariant.commit_ends {t : Option Multiterm}
    (h : Invariant S n pool closed [v] (Multiterm.varsOfOption t ++ occ) (⟨⟨[v]⟩, t⟩ :: cells))
    (ht : ∀ s, t = some s → s.Filled) (hv : pool.partition.owner? v = some a) :
    Ends (t.forM fun term => onPartition (Partition.commit a term)) pool
      (fun _ pool' => pool'.partition.owner? v = some a ∧
        Invariant S n pool' closed [v] occ cells)
      fun e _ => Refutes S e := by
  cases t with
  | none => exact ends_pure ⟨hv, h.drop⟩
  | some t =>
    obtain ⟨hlt, hresolve⟩ := h.proper.owner_live hv
    refine lift_ends ((h.proper.linked.commit_ends hlt t).mono ?_ ?_)
    · rintro _ q ⟨m, hm, hq⟩
      rw [hresolve] at hq
      exact ⟨by rw [hq.owner, hv], h.commit (ht t rfl) hv hm hq⟩
    · rintro e _ ⟨c, rfl, hm⟩
      exact h.refutes_of_commit hv hm

/-- Folding a cell back keeps the invariant. -/
theorem Invariant.settle_ends {c : Cell}
    (h : Invariant S n pool closed [] (Cell.varsOfArgs (c :: cells)) (c :: cells))
    (hc : c.vars.toList ≠ []) (ht : ∀ t, c.term = some t → t.Filled) :
    Ends (settle c) pool
      (fun _ pool' => Invariant S n pool' closed [] (Cell.varsOfArgs cells) cells)
      fun e _ => Refutes S e := by
  obtain ⟨⟨vs⟩, t⟩ := c
  obtain ⟨v, vs, rfl⟩ := List.exists_cons_of_ne_nil hc
  rw [Cell.varsOfArgs_cons, List.append_assoc] at h
  refine Ends.bind_of_eq_ok (b := (v, ⟨vs⟩)) rfl ?_
  refine Ends.bind h.payOffVar_ends ?_
  rintro a pool₁ ⟨hv, -, h₁⟩
  -- the class of the first variable takes in the classes of the others one by one
  refine Ends.bind (Ends.foldlM (fun a us s => s.partition.owner? v = some a ∧
    Invariant S n s closed [v] (us ++ (Multiterm.varsOfOption t ++ Cell.varsOfArgs cells))
      (⟨⟨v :: us⟩, t⟩ :: cells)) (fun a u us s hs => hs.2.join_ends hs.1) vs ⟨hv, h₁⟩) ?_
  rintro a pool₂ ⟨hv₂, h₂⟩
  refine Ends.bind (h₂.commit_ends ht hv₂) ?_
  rintro _ pool₃ ⟨hv₃, h₃⟩
  refine ends_get_bind ?_
  split_ifs with hzero
  · refine record_bind_ends ?_
    refine ends_modify ?_
    exact (h₃.release_ready hv₃ hzero).of_similar (.refl h₃.proper.linked) rfl rfl rfl
  · exact ends_pure (h₃.release_waiting hv₃ hzero)

theorem varsOfArgs_reverse_perm (cells : List Cell) :
    (Cell.varsOfArgs cells.reverse).Perm (Cell.varsOfArgs cells) := by
  induction cells with
  | nil => rfl
  | cons c cells ih =>
    rw [List.reverse_cons, Cell.varsOfArgs_append, Cell.varsOfArgs_cons c cells,
      Cell.varsOfArgs_cons, Cell.varsOfArgs_nil, List.append_nil]
    exact List.perm_append_comm.trans (ih.append_left _)

/-- Folding a frontier back leaves no occurrence outside the multiterms. -/
theorem Invariant.compact_ends
    (h : Invariant S n pool closed [] (Cell.varsOfArgs cells) cells)
    (hcells : ∀ c ∈ cells, c.vars.toList ≠ [] ∧ ∀ t, c.term = some t → t.Filled) :
    Ends (compact cells) pool (fun _ pool' => Invariant S n pool' closed [] [] [])
      fun e _ => Refutes S e := by
  have hreverse := h.perm (varsOfArgs_reverse_perm cells) fun c => List.mem_reverse
  refine Ends.bind (Ends.forM (fun cs s => (∀ c ∈ cs, c ∈ cells) ∧
    Invariant S n s closed [] (Cell.varsOfArgs cs) cs) (fun c cs s hs => ?_) cells.reverse
    ⟨fun c => List.mem_reverse.1, hreverse⟩) ?_
  · obtain ⟨hsub, hs⟩ := hs
    rw [List.forall_mem_cons] at hsub
    obtain ⟨hne, ht⟩ := hcells c hsub.1
    exact (hs.settle_ends hne ht).mono (fun _ _ h => ⟨hsub.2, h⟩) fun _ _ h => h
  · rintro _ pool₁ ⟨-, h₁⟩
    refine ends_get_bind ?_
    exact record_ends (h₁.of_similar (.refl h₁.proper.linked) rfl rfl rfl)

end Multiequation.Pool
