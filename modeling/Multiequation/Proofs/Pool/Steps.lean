import Multiequation.Proofs.Pool.Invariant

/-!
# Committing, releasing and selecting

The other steps that keep the invariant: the multiterm of a cell is committed to the class of its
variables, the class is released and may become ready, and a ready class is closed while its multiterm
is split into what is kept and a frontier.
-/

namespace Multiequation.Pool

open Multiequation.Partition

variable {S : ∀ M : Domain, (Var → M.Object) → Prop} {n : ℕ} {pool pool' : Pool}
  {closed : List ClassId} {held occ : List Var} {cells : List Cell} {q : Partition}
  {root x : ClassId} {v : Var}

namespace Invariant

/-- The order of the outstanding occurrences and cells does not matter. -/
theorem perm (h : Invariant S n pool closed held occ cells) {occ' : List Var} {cells' : List Cell}
    (hocc : occ'.Perm occ) (hcells : ∀ c, c ∈ cells' ↔ c ∈ cells) :
    Invariant S n pool closed held occ' cells' where
  proper := h.proper
  isClosed := h.isClosed
  occ_lt u hu := h.occ_lt u (hocc.subset hu)
  pending id hid := by
    rw [h.pending id hid]
    exact (occurrencesOf_perm (hocc.append_left _) id).symm
  ready_nodup := h.ready_nodup
  mem_ready := h.mem_ready
  remaining := h.remaining
  held_open := h.held_open
  waiting := h.waiting
  asserts M w := by simp only [h.asserts, hcells]

/-! ### Committing the multiterm of a cell -/

/-- A cell that has nothing left but the variable of its class claims nothing. -/
theorem drop (h : Invariant S n pool closed held occ (⟨⟨[v]⟩, none⟩ :: cells)) :
    Invariant S n pool closed held occ cells where
  proper := h.proper
  isClosed := h.isClosed
  occ_lt := h.occ_lt
  pending := h.pending
  ready_nodup := h.ready_nodup
  mem_ready := h.mem_ready
  remaining := h.remaining
  held_open := h.held_open
  waiting := h.waiting
  asserts M w := by simp [h.asserts, Cell.Holds, Cell.Describes]

/-- The multiterm of a cell moves to the class of its variable. -/
theorem commit {t : Multiterm}
    (h : Invariant S n pool closed [v] (t.vars ++ occ) (⟨⟨[v]⟩, some t⟩ :: cells))
    (ht : t.Filled) (hv : pool.partition.owner? v = some root) {m : Option Multiterm}
    (hm : Multiterm.mergeOption (pool.partition.classAt root).term (some t) = .ok m)
    (hq : Updated pool.partition q root { pool.partition.classAt root with term := m }) :
    Invariant S n { pool with partition := q } closed [v] occ cells := by
  have hlinked := h.proper.linked
  obtain ⟨root, hroot, hroot'⟩ := h.held_open v (List.mem_singleton_self v)
  obtain rfl := Option.some.inj (hv.symm.trans hroot')
  obtain ⟨hlt, hresolve⟩ := h.live_of_open hroot
  have hclasses := openClasses_congr hq.toSameClasses hlinked closed
  have hmvars := Multiterm.vars_mergeOption hm
  rw [Multiterm.varsOfOption_some] at hmvars
  have hpending : ∀ j ∈ pool.partition.liveClasses,
      (q.classAt j).pending = (pool.partition.classAt j).pending :=
    fun _ hj => hq.pending_of_live hlinked rfl hj
  have hrc : readyClasses { pool with partition := q } = pool.readyClasses := by
    rw [readyClasses, readyClasses, hq.resolve]
  refine ⟨?_, h.isClosed.of_updated hlinked hq hroot, fun u hu => h.occ_lt u
    (List.mem_append_right _ hu), ?_, ?_, ?_, ?_, ?_, ?_, ?_⟩
  · exact h.proper.of_commit hq hresolve hm ht fun u hu =>
      h.occ_lt u (List.mem_append_left _ hu)
  · intro id hid
    rw [hq.liveClasses hlinked] at hid
    rw [hpending id hid, h.pending id hid, occurrencesOf_congr hq.owner]
    -- the occurrences of the multiterm move from the cell to the class
    have hmove := (hq.openVars_perm_append hlinked hroot hmvars).append_right occ
    rw [List.append_assoc] at hmove
    exact occurrencesOf_perm hmove.symm id
  · rw [hrc]
    exact h.ready_nodup
  · intro id
    rw [hrc, h.mem_ready, hclasses, hq.owner]
    exact and_congr_right fun hid => by rw [hpending id (mem_openClasses.1 hid).1]
  · rw [hclasses]
    exact h.remaining
  · rw [hclasses, hq.owner]
    exact h.held_open
  · simp only [hclasses, hq.resolve]
    intro id hid
    rw [hpending id (mem_openClasses.1 hid).1]
    exact h.waiting id hid
  · intro M w
    have hcell : (Cell.mk ⟨[v]⟩ (some t)).Holds M w ↔ t.Describes M w (w v) := by
      rw [Cell.holds_iff (List.mem_singleton_self v)]
      simp [Cell.Describes]
    rw [h.asserts, List.forall_mem_cons, hcell, hq.asserts_commit h.proper.toWellFormed hv hm,
      and_assoc]

/-- When the multiterm of a cell clashes with that of the class of its variable, the claims are true
in no domain without a clash. -/
theorem refutes_of_commit {vs : List Var} {t : Multiterm}
    (h : Invariant S n pool closed held occ (⟨⟨v :: vs⟩, some t⟩ :: cells))
    (hv : pool.partition.owner? v = some root) {c : Clash}
    (hm : Multiterm.mergeOption (pool.partition.classAt root).term (some t) = .error c) :
    Refutes S (.clash c) := by
  refine ⟨⟨c, rfl⟩, fun M w hS => ?_⟩
  obtain ⟨hasserts, hcells⟩ := (h.asserts M w).1 hS
  obtain ⟨d, hd, ht⟩ := hcells _ List.mem_cons_self
  obtain rfl : w v = d := hd v List.mem_cons_self
  exact Multiterm.hasClash_of_mergeOption hm (hasserts.term hv) ht

/-! ### Releasing a class -/

/-- A class that is waited for needs not be held. -/
theorem release_waiting (h : Invariant S n pool closed [v] occ cells)
    (hv : pool.partition.owner? v = some root)
    (hpending : (pool.partition.classAt root).pending ≠ 0) :
    Invariant S n pool closed [] occ cells where
  proper := h.proper
  isClosed := h.isClosed
  occ_lt := h.occ_lt
  pending := h.pending
  ready_nodup := h.ready_nodup
  mem_ready id := by
    rw [h.mem_ready]
    refine and_congr_right fun _ => and_congr_right fun hzero => iff_of_true ?_ (List.forall_mem_nil _)
    rw [List.forall_mem_singleton, hv]
    rintro ⟨⟩
    exact hpending hzero
  remaining := h.remaining
  held_open := List.forall_mem_nil _
  waiting := h.waiting
  asserts := h.asserts

/-- A class that is not waited for is put into the ready queue when it is released. -/
theorem release_ready (h : Invariant S n pool closed [v] occ cells)
    (hv : pool.partition.owner? v = some root)
    (hpending : (pool.partition.classAt root).pending = 0) :
    Invariant S n { pool with ready := pool.ready.enqueue root } closed [] occ cells := by
  obtain ⟨root, hroot, hroot'⟩ := h.held_open v (List.mem_singleton_self v)
  obtain rfl := Option.some.inj (hv.symm.trans hroot')
  have hrc : readyClasses { pool with ready := pool.ready.enqueue root } =
      pool.readyClasses ++ [root] := by
    simp [readyClasses, (h.live_of_open hroot).2]
  have hnew : root ∉ pool.readyClasses := fun hmem =>
    ((h.mem_ready root).1 hmem).2.2 v (List.mem_singleton_self v) hv
  refine ⟨h.proper, h.isClosed, h.occ_lt, h.pending, ?_, fun id => ?_, h.remaining,
    List.forall_mem_nil _, h.waiting, h.asserts⟩
  · rw [hrc]
    refine List.nodup_append.2 ⟨h.ready_nodup, List.nodup_singleton _, ?_⟩
    rintro a ha _ hb rfl
    exact hnew (List.mem_singleton.1 hb ▸ ha)
  · rw [hrc, List.mem_append, List.mem_singleton, h.mem_ready]
    simp only [List.forall_mem_singleton, hv, ne_eq, Option.some.injEq]
    by_cases hid : id = root
    · subst hid
      simp [hroot, hpending]
    · simp [hid, Ne.symm hid]

end Invariant

/-! ### Selecting a ready class -/

/-- What opening a class makes of its multiterm: a part that stays and a frontier. -/
structure Opened (old kept : Option Multiterm) (frontier : List Cell) : Prop where
  vars : Cell.varsOfArgs frontier = Multiterm.varsOfOption old
  kept_vars : Multiterm.varsOfOption kept ⊆ Multiterm.varsOfOption old
  isSome : old.isSome → kept.isSome
  collapsed : ∀ t, kept = some t → t.Collapsed
  filled : ∀ c ∈ frontier, c.vars.toList ≠ [] ∧ ∀ t, c.term = some t → t.Filled
  describes : ∀ (M : Domain) (w : Var → M.Object) d, Multiterm.OptionDescribes M w old d ↔
    Multiterm.OptionDescribes M w kept d ∧ ∀ c ∈ frontier, c.Holds M w

theorem opened_none : Opened none none [] where
  vars := rfl
  kept_vars := fun _ h => h
  isSome := fun h => h
  collapsed := by rintro t ⟨⟩
  filled := List.forall_mem_nil _
  describes := by simp

theorem opened_peel {t : Multiterm} (ht : t.Filled) {frontier : List Cell}
    (h : t.peel.frontier = .ok frontier) : Opened (some t) (some t.peel.kept) frontier where
  vars := Multiterm.vars_frontier h
  kept_vars := Multiterm.vars_kept_subset h
  isSome := fun _ => rfl
  collapsed := by
    rintro _ ⟨⟩
    exact Multiterm.collapsed_kept h
  filled := ht.frontier h
  describes M w d := by
    simp only [Multiterm.optionDescribes_some]
    exact Multiterm.describes_peel h d

namespace Invariant

variable {rest : List ClassId} {kept : Option Multiterm} {frontier : List Cell}

/-- The first ready class is open, and it is not waited for. -/
theorem select_open (h : Invariant S n pool closed held occ cells)
    (hready : pool.ready.toList = x :: rest) :
    pool.partition.resolve x ∈ pool.partition.openClasses closed ∧
      (pool.partition.classAt (pool.partition.resolve x)).pending = 0 := by
  have hmem : pool.partition.resolve x ∈ pool.readyClasses := by
    rw [readyClasses, hready]
    exact List.mem_cons_self
  obtain ⟨hopen, hzero, -⟩ := (h.mem_ready _).1 hmem
  exact ⟨hopen, hzero⟩

/-- Between two selections neither a closed class nor one that may be selected is referred to by an
open multiterm. -/
theorem owner?_ne_of_mem_openVars (h : Invariant S n pool closed [] [] [])
    (hopen : root ∈ pool.partition.openClasses closed)
    (hzero : (pool.partition.classAt root).pending = 0) {u : Var}
    (hu : u ∈ pool.partition.openVars closed) {o : ClassId} (ho : o ∈ closed ++ [root]) :
    pool.partition.owner? u ≠ some o := by
  -- the count of such a class is zero, and it counts the open occurrences
  have hcount : ∀ j ∈ pool.partition.liveClasses, (pool.partition.classAt j).pending = 0 →
      pool.partition.owner? u ≠ some j := by
    intro j hj hz
    rw [h.pending j hj, List.append_nil] at hz
    exact occurrencesOf_eq_zero_iff.1 hz u hu
  rcases List.mem_append.1 ho with ho | ho
  · exact hcount o (h.isClosed.live o ho) (h.isClosed.pending o ho)
  · obtain rfl := List.mem_singleton.1 ho
    exact hcount o (mem_openClasses.1 hopen).1 hzero

/-- The occurrences of the selected class move to the frontier. -/
theorem openVars_perm_frontier (h : Invariant S n pool closed held occ cells)
    (hopen : root ∈ pool.partition.openClasses closed)
    (hopened : Opened (pool.partition.classAt root).term kept frontier) {cls : Class}
    (hq : Updated pool.partition q root cls) :
    (pool.partition.openVars closed).Perm
      (q.openVars (closed ++ [root]) ++ Cell.varsOfArgs frontier) := by
  have hlinked := h.proper.linked
  refine (openVars_perm hopen).trans ?_
  rw [hopened.vars, openVars, openClasses_concat, openClasses_congr hq.toSameClasses hlinked,
    hq.flatMap_erase hlinked]
  exact List.perm_append_comm

/-- The ready classes behind the selected one are still those that nothing is waited for at. -/
theorem mem_ready_of_select (h : Invariant S n pool closed [] [] [])
    (hrc : pool.readyClasses = root :: pool'.readyClasses) {id : ClassId} :
    id ∈ pool'.readyClasses ↔ id ∈ pool.partition.openClasses (closed ++ [root]) ∧
      (pool.partition.classAt id).pending = 0 := by
  have hnodup := h.ready_nodup
  rw [hrc, List.nodup_cons] at hnodup
  have hmem := h.mem_ready id
  rw [hrc, List.mem_cons] at hmem
  rw [mem_openClasses_concat]
  constructor
  · intro hid
    obtain ⟨hopen, hzero, -⟩ := hmem.1 (.inr hid)
    refine ⟨⟨hopen, ?_⟩, hzero⟩
    rintro rfl
    exact hnodup.1 hid
  · rintro ⟨⟨hopen, hne⟩, hzero⟩
    exact (hmem.2 ⟨hopen, hzero, List.forall_mem_nil _⟩).resolve_left hne

/-- What the selected class says is said by what it keeps and by the frontier. -/
theorem asserts_select (h : Invariant S n pool closed [] [] [])
    (hopen : root ∈ pool.partition.openClasses closed)
    (hopened : Opened (pool.partition.classAt root).term kept frontier)
    (hq : Updated pool.partition q root { pool.partition.classAt root with term := kept })
    (M : Domain) (w : Var → M.Object) :
    S M w ↔ Asserts M w q ∧ ∀ c ∈ frontier, c.Holds M w := by
  obtain ⟨v, -, hv⟩ := h.proper.exists_owner (mem_openClasses.1 hopen).1
  have hterm : (∀ c ∈ frontier, c.Holds M w) ∧ Multiterm.OptionDescribes M w kept (w v) ↔
      True ∧ Multiterm.OptionDescribes M w (pool.partition.classAt root).term (w v) := by
    rw [hopened.describes, true_and, and_comm]
  have hasserts := hq.asserts_iff h.proper.toWellFormed hv hterm
  rw [true_and] at hasserts
  rw [h.asserts, ← hasserts]
  exact (and_iff_left (List.forall_mem_nil _)).trans and_comm

/-- Taking the first ready class closes it and leaves its frontier to be folded back. -/
theorem select (h : Invariant S n pool closed [] [] [])
    (hready : pool.ready.toList = x :: rest) (hroot : pool.partition.resolve x = root)
    (hopened : Opened (pool.partition.classAt root).term kept frontier)
    (hq : Updated pool.partition q root { pool.partition.classAt root with term := kept }) :
    Invariant S n
      { pool with partition := q, ready := ⟨rest⟩, remaining := pool.remaining - 1 }
      (closed ++ [root]) [] (Cell.varsOfArgs frontier) frontier := by
  have hlinked := h.proper.linked
  obtain ⟨hopen, hzero⟩ := h.select_open hready
  rw [hroot] at hopen hzero
  have hresolve := (h.live_of_open hopen).2
  have hclasses := openClasses_congr hq.toSameClasses hlinked (closed ++ [root])
  have hpending : ∀ j ∈ pool.partition.liveClasses,
      (q.classAt j).pending = (pool.partition.classAt j).pending :=
    fun _ hj => hq.pending_of_live hlinked rfl hj
  have hlive : ∀ {id}, id ∈ pool.partition.openClasses (closed ++ [root]) →
      id ∈ pool.partition.liveClasses := fun hid => (mem_openClasses.1 hid).1
  have hvars := h.openVars_perm_frontier hopen hopened hq
  have hrc : pool.readyClasses = root :: readyClasses
      { pool with partition := q, ready := ⟨rest⟩, remaining := pool.remaining - 1 } := by
    simp only [readyClasses, hready, List.map_cons, hroot, hq.resolve]
  have hold : ∀ u ∈ Multiterm.varsOfOption kept, u ∈ pool.partition.openVars closed := fun u hu =>
    List.mem_flatMap.2 ⟨root, hopen, hopened.kept_vars hu⟩
  refine ⟨?_, ?_, ?_, ?_, ?_, ?_, ?_, List.forall_mem_nil _, ?_, h.asserts_select hopen hopened hq⟩
  · exact h.proper.of_updated hq hresolve rfl rfl (fun t ht => (hopened.collapsed t ht).filled)
      (fun u hu => h.proper.vars_lt (hopened.kept_vars hu)) hopened.isSome
  · exact h.isClosed.concat hlinked hq hopen hzero hopened.collapsed fun u hu o ho =>
      h.owner?_ne_of_mem_openVars hopen hzero (hold u hu) ho
  · intro u hu
    rw [hopened.vars] at hu
    exact h.proper.vars_lt hu
  · intro id hid
    rw [hq.liveClasses hlinked] at hid
    rw [hpending id hid, h.pending id hid, List.append_nil, occurrencesOf_congr hq.owner]
    exact occurrencesOf_perm hvars id
  · have hnodup := h.ready_nodup
    rw [hrc, List.nodup_cons] at hnodup
    exact hnodup.2
  · intro id
    rw [h.mem_ready_of_select hrc, hclasses]
    refine and_congr_right fun hid => ?_
    rw [hpending id (hlive hid)]
    exact (and_iff_left (List.forall_mem_nil _)).symm
  · rw [hclasses, openClasses_concat, List.length_erase_of_mem hopen, h.remaining]
  · intro id hid hne
    rw [hclasses] at hid
    rw [hpending id (hlive hid)] at hne
    simp only [hq.resolve]
    exact h.waiting id (mem_openClasses_concat.1 hid).1 hne

end Invariant

end Multiequation.Pool
