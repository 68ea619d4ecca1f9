import Multiequation.Proofs.Pool.Work

/-!
# Runs

A discharge takes the next ready class and peels its multiterm, and then folds the frontier back. Every
head of the loop of a run satisfies the invariant. Every discharge leaves less to do, so a run ends, and
it ends in one of three ways: all classes are closed, or a clash refutes what the run began with, or
classes remain and none of them is ready.
-/

namespace Multiequation.Pool

open Multiequation.Partition

variable {S : ∀ M : Domain, (Var → M.Object) → Prop} {n : ℕ} {start pool pool' : Pool}
  {closed : List ClassId} {cells : List Cell} {id : ClassId}

/-- The states at the head of the loop of a run, each with the classes closed so far. -/
inductive Heads (start : Pool) : List ClassId → Pool → Prop
  | start : Heads start [] start
  | next {closed : List ClassId} {pool pool' : Pool} {id : ClassId} : Heads start closed pool →
      pool.remaining ≠ 0 → dischargeNext pool = .ok id pool' → Heads start (closed ++ [id]) pool'

/-- The states while a frontier is folded back, each with the classes closed so far and the cells
that are still to come. -/
inductive Folding (start : Pool) : List ClassId → List Cell → Pool → Prop
  | opened {closed : List ClassId} {pool pool' : Pool} {id : ClassId} {frontier : List Cell} :
      Heads start closed pool → pool.remaining ≠ 0 →
      openNext pool = .ok (id, some frontier) pool' →
      Folding start (closed ++ [id]) frontier.reverse pool'
  | settled {closed : List ClassId} {cell : Cell} {cells : List Cell} {pool pool' : Pool} :
      Folding start closed (cell :: cells) pool → settle cell pool = .ok ⟨⟩ pool' →
      Folding start closed cells pool'

/-! ### One discharge -/

/-- Taking the first ready class closes it, and fails only if no class is ready. -/
theorem Invariant.openNext_ends (h : Invariant S n pool closed [] [] []) :
    Ends openNext pool
      (fun r pool' => pool'.remaining = pool.remaining - 1 ∧
        Invariant S n pool' (closed ++ [r.1]) [] (Cell.varsOfArgs (r.2.getD [])) (r.2.getD []) ∧
        ∀ c ∈ r.2.getD [], c.vars.toList ≠ [] ∧ ∀ t, c.term = some t → t.Filled)
      fun e pool' => e = .noReadyClasses pool.remaining ∧ pool' = pool ∧
        pool.ready.toList = [] := by
  cases hready : pool.ready.toList with
  | nil =>
    have hrun : openNext pool = .error (.noReadyClasses pool.remaining) pool := by
      rw [openNext]
      simp only [bind, EStateM.bind, selectReady_of_nil hready]
    exact .of_eq_error hrun ⟨rfl, rfl, rfl⟩
  | cons x rest =>
    obtain ⟨hopen, hzero⟩ := h.select_open hready
    obtain ⟨hlt, hresolve⟩ := h.live_of_open hopen
    have hselect := selectReady_ends h.proper.linked hready
    refine Ends.bind (hselect.safe fun _ _ h => h) ?_
    rintro _ _ ⟨rfl, p₁, journal, hp₁, rfl⟩
    generalize hroot : pool.partition.resolve x = root at *
    have hlt₁ : root.index < p₁.records.size := by rwa [hp₁.size]
    refine Ends.bind_of_eq_ok (b := (p₁.classAt root).term) rfl ?_
    rw [hp₁.classAt]
    cases hterm : (pool.partition.classAt root).term with
    | none =>
      have hq := hp₁.linked.updated_takeTerm hlt₁
      rw [hp₁.resolve, hresolve, hp₁.classAt] at hq
      refine ends_pure ⟨rfl, ?_, List.forall_mem_nil _⟩
      exact (h.select hready hroot (hterm ▸ opened_none) (hp₁.trans_updated hq)).of_similar
        (.refl hq.linked) rfl rfl rfl
    | some t =>
      have ht := h.proper.filled hterm
      obtain ⟨frontier, hfrontier⟩ := ht.exists_frontier
      have hopened := opened_peel ht hfrontier
      have hcommit := hp₁.linked.replaceTerm_ends hlt₁ t.peel.kept
      rw [hp₁.resolve, hresolve, hp₁.classAt] at hcommit
      dsimp only
      rw [hfrontier]
      refine Ends.bind_of_eq_ok (b := frontier) rfl (record_bind_ends ?_)
      refine Ends.bind (P := fun _ s => s.remaining = pool.remaining - 1 ∧
        Invariant S n s (closed ++ [root]) [] (Cell.varsOfArgs frontier) frontier)
        (lift_ends (hcommit.safe fun _ q hq => ?_)) ?_
      · exact ⟨rfl, (h.select hready hroot (hterm ▸ hopened) (hp₁.trans_updated hq)).of_similar
          (.refl hq.linked) rfl rfl rfl⟩
      · rintro _ s ⟨hs, hinv⟩
        exact ends_pure ⟨hs, hinv, hopened.filled⟩

/-- A discharge closes one class. -/
theorem Invariant.dischargeNext_ends (h : Invariant S n pool closed [] [] []) :
    Ends dischargeNext pool
      (fun id pool' => Invariant S n pool' (closed ++ [id]) [] [] [])
      fun e pool' => Refutes S e ∨
        (e = .noReadyClasses pool.remaining ∧ pool' = pool ∧ pool.ready.toList = []) := by
  rw [dischargeNext_eq]
  refine Ends.bind (h.openNext_ends.mono (fun _ _ h => h) fun _ _ h => .inr h) ?_
  rintro ⟨id, frontier⟩ pool₁ ⟨-, h₁, hcells⟩
  refine Ends.bind (P := fun _ s => Invariant S n s (closed ++ [id]) [] [] []) ?_ ?_
  · cases frontier with
    | none => exact ends_pure h₁
    | some frontier => exact (h₁.compact_ends hcells).mono (fun _ _ h => h) fun _ _ h => .inl h
  · intro _ pool₂ h₂
    refine (h₂.find_ends id).mono ?_ fun _ _ h => .inl h
    rintro _ pool₃ ⟨rfl, -, h₃⟩
    have hid : id ∈ closed ++ [id] := by simp
    rwa [((mem_liveClasses h₂.proper.linked).1 (h₂.isClosed.live id hid)).2]

/-! ### Whole runs -/

/-- Every head of the loop of a run satisfies the invariant. -/
theorem Heads.invariant (hstart : Invariant S n start [] [] [] [])
    (h : Heads start closed pool) : Invariant S n pool closed [] [] [] := by
  induction h with
  | start => exact hstart
  | next _ _ hok ih => exact ih.dischargeNext_ends.of_ok hok

/-- While a frontier is folded back, the invariant holds for the cells that are still to come. -/
theorem Folding.invariant (hstart : Invariant S n start [] [] [] [])
    (h : Folding start closed cells pool) :
    Invariant S n pool closed [] (Cell.varsOfArgs cells) cells ∧
      ∀ c ∈ cells, c.vars.toList ≠ [] ∧ ∀ t, c.term = some t → t.Filled := by
  induction h with
  | opened hhead _ hok =>
    obtain ⟨-, h, hcells⟩ := (hhead.invariant hstart).openNext_ends.of_ok hok
    exact ⟨h.perm (varsOfArgs_reverse_perm _) fun c => List.mem_reverse,
      fun c hc => hcells c (List.mem_reverse.1 hc)⟩
  | settled _ hok ih =>
    obtain ⟨h, hcells⟩ := ih
    rw [List.forall_mem_cons] at hcells
    exact ⟨(h.settle_ends hcells.1.1 hcells.1.2).of_ok hok, hcells.2⟩

/-- When no class remains, all live classes are closed. -/
theorem Invariant.mem_closed (h : Invariant S n pool closed [] [] []) (hdone : pool.remaining = 0)
    (hid : id ∈ pool.partition.liveClasses) : id ∈ closed := by
  by_contra hopen
  have hlength := h.remaining
  rw [hdone, eq_comm, List.length_eq_zero_iff] at hlength
  have hmem := mem_openClasses.2 ⟨hid, hopen⟩
  rw [hlength] at hmem
  cases hmem

/-- Classes remain, but none of them is ready. -/
structure Stalled (S : ∀ M : Domain, (Var → M.Object) → Prop) (n : ℕ) (e : Failure)
    (pool : Pool) : Prop where
  failure : e = .noReadyClasses pool.remaining
  invariant : ∃ closed, Invariant S n pool closed [] [] []
  remaining : pool.remaining ≠ 0
  ready : pool.ready.toList = []

/-- From a head on, enough discharges end with no class left, with a clash or with a stall. -/
theorem Heads.dischargeUpTo_ends (hstart : Invariant S n start [] [] [] [])
    (h : Heads start closed pool) {w k : ℕ} (hw : Within w pool) (hk : w < k) :
    Ends (dischargeUpTo k) pool
      (fun order pool' => Heads start (closed ++ order) pool' ∧ pool'.remaining = 0)
      fun e pool' => Refutes S e ∨ Stalled S n e pool' := by
  induction k generalizing closed pool w with
  | zero => exact absurd hk (Nat.not_lt_zero w)
  | succ k ih =>
    rw [dischargeUpTo]
    refine ends_get_bind ?_
    split_ifs with hzero
    · exact ends_pure ⟨by rwa [List.append_nil], hzero⟩
    · have hinv := h.invariant hstart
      refine Ends.bind (P := fun id s => dischargeNext pool = .ok id s) ?_ ?_
      · cases hok : dischargeNext pool with
        | ok id s => exact .of_eq_ok hok rfl
        | error e s =>
          refine .of_eq_error hok ?_
          obtain hrefutes | ⟨rfl, rfl, hready⟩ := hinv.dischargeNext_ends.of_error hok
          · exact .inl hrefutes
          · exact .inr ⟨rfl, ⟨_, hinv⟩, hzero, hready⟩
      · intro id s hok
        obtain ⟨w, rfl, hs⟩ := hw.dischargeNext_ends.of_ok hok
        refine Ends.bind (ih (h.next hzero hok) hs (Nat.lt_of_succ_lt_succ hk)) ?_
        rintro order s' ⟨hs', hdone⟩
        refine ends_pure ⟨?_, hdone⟩
        rwa [List.append_assoc] at hs'

/-- The three ends of a run. -/
theorem Invariant.discharge_ends (h : Invariant S n start [] [] [] []) :
    Ends discharge start
      (fun order pool' => Heads start order pool' ∧ pool'.remaining = 0)
      fun e pool' => Refutes S e ∨ Stalled S n e pool' := by
  refine ends_get_bind ?_
  exact Heads.start.dischargeUpTo_ends h ⟨h.proper.toWellFormed, le_rfl⟩ (Nat.lt_succ_self _)

/-- A run on a partition whose pending counts are right begins with the invariant. -/
theorem invariant_ofPartition {p : Partition} (hp : p.Proper n)
    (hcount : ∀ id ∈ p.liveClasses, (p.classAt id).pending = p.occurrencesOf id p.occurrences)
    (journal : Journal) :
    Invariant (fun M w => Asserts M w p) n (ofPartition p journal) [] [] [] [] := by
  have hopen : p.openClasses [] = p.liveClasses := List.filter_eq_self.2 fun _ _ => by simp
  have hroot : ∀ {q : ClassId → Bool}, (p.liveClasses.filter q).map p.resolve =
      p.liveClasses.filter q := by
    intro q
    refine (List.map_congr_left fun id hid => ?_).trans (List.map_id _)
    exact ((mem_liveClasses hp.linked).1 (List.mem_filter.1 hid).1).2
  have hready : (ofPartition p journal).readyClasses =
      p.liveClasses.filter fun id => (p.classAt id).pending == 0 := hroot
  refine ⟨hp, closed_nil p, nofun, ?_, ?_, ?_, ?_, nofun, ?_, ?_⟩
  · intro id hid
    rw [List.append_nil]
    exact (hcount id hid).trans (by rw [ofPartition, openVars_nil])
  · rw [hready]
    exact p.nodup_liveClasses.filter _
  · intro id
    rw [hready]
    simp [ofPartition, hopen]
  · exact congrArg List.length hopen.symm
  · intro id hid hne
    simp only [ofPartition, hopen] at hid hne ⊢
    rw [hroot]
    simpa using ⟨hid, hne⟩
  · exact fun M w => (and_iff_left (List.forall_mem_nil _)).symm

end Multiequation.Pool
