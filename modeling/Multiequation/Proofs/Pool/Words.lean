import Multiequation.Proofs.Partition.Words
import Multiequation.Proofs.Pool.PendingCounts

/-!
# Runs that count in words

A pool that counts in words is discharged as one that counts without a bound, if its run has the invariant
and there is room in a word for what is left to do. Two classes that are merged then have no more
occurrences to wait for than the whole pool has, and a class that is merged away is one of those that
remain, so neither a sum nor the number of remaining classes wraps around.
-/

namespace Multiequation

namespace Pool

open Multiequation.Partition

/-- The same pool, counting in words. -/
def inWords (pool : Pool) : Pool := { pool with partition := pool.partition.inWords }

/-- `t` is `s`, counting in words, and a word has room for the number of remaining classes. -/
structure InWords (s t : Pool) : Prop where
  eq : t = s.inWords
  remaining_lt : s.remaining < UInt64.size

variable {S : ∀ M : Domain, (Var → M.Object) → Prop} {n w : ℕ} {s t : Pool}
  {closed : List ClassId} {occ vs : List Var} {cells : List Cell} {id a b : ClassId} {u v : Var}

theorem mergeEvent?_inWords (s : Pool) (a b : ClassId) :
    s.inWords.partition.mergeEvent? a b = s.partition.mergeEvent? a b := by
  rw [mergeEvent?, mergeEvent?, inWords, absorption?_inWords, classAt_inWords]

/-- Work on the partition does not count classes. -/
theorem remaining_eq_of_onPartition {α : Type} {x : PartitionM α} {y : α}
    (hok : onPartition x s = .ok y t) : t.remaining = s.remaining := by
  unfold onPartition lift at hok
  split at hok
  · cases hok
    rfl
  · cases hok

namespace InWords

/-! ### Steps that do not depend on the arithmetic -/

theorem onPartition (h : InWords s t) {α : Type} {x : PartitionM α}
    (hx : Partition.SameInWords x s.partition) :
    Alike InWords (fun _ => True) (Pool.onPartition x s) (Pool.onPartition x t) := by
  obtain ⟨rfl, hlt⟩ := h
  unfold Pool.onPartition lift
  rw [show s.inWords.partition = s.partition.inWords from rfl]
  unfold Partition.SameInWords at hx
  generalize x s.partition = r at hx
  generalize x s.partition.inWords = r' at hx
  cases hx with
  | ok _ hR => exact .ok trivial ⟨by rw [hR]; rfl, hlt⟩
  | error hR => exact .error ⟨by rw [hR]; rfl, hlt⟩

theorem record (h : InWords s t) (e : Event) :
    Alike InWords (fun _ => True) (Pool.record e s) (Pool.record e t) := by
  obtain ⟨rfl, hlt⟩ := h
  exact .modify trivial ⟨rfl, hlt⟩

theorem find (h : InWords s t) (id : ClassId) :
    Alike InWords (fun _ => True) (Pool.find id s) (Pool.find id t) :=
  h.onPartition (findRoot_inWords _ id)

theorem commit (h : InWords s t) (id : ClassId) (term : Multiterm) :
    Alike InWords (fun _ => True) (Pool.onPartition (Partition.commit id term) s)
      (Pool.onPartition (Partition.commit id term) t) :=
  h.onPartition (commit_inWords _ id term)

theorem payOffVar (h : InWords s t) (v : Var) :
    Alike InWords (fun _ => True) (Pool.payOffVar v s) (Pool.payOffVar v t) := by
  refine h.onPartition (.bind (findOwner_inWords _ v) ?_)
  rintro owner q _ - rfl
  refine .bind (q.payOff_inWords owner) ?_
  rintro _ _ _ - rfl
  exact .ok trivial rfl

theorem selectReady (h : InWords s t) :
    Alike InWords (fun _ => True) (Pool.selectReady s) (Pool.selectReady t) := by
  obtain ⟨rfl, hlt⟩ := h
  refine .get_bind ?_
  rw [show s.inWords.ready = s.ready from rfl, show s.inWords.remaining = s.remaining from rfl]
  cases s.ready.dequeue with
  | error e => exact .error ⟨rfl, hlt⟩
  | ok front =>
    refine .bind (P := fun _ => True) (.ok trivial ⟨rfl, (Nat.sub_le _ 1).trans_lt hlt⟩)
      fun _ s t _ h => ?_
    refine .bind (h.find front.1) fun id s t _ h => ?_
    exact .bind (h.record _) fun _ _ _ _ h => .ok trivial h

theorem openNext (h : InWords s t) :
    Alike InWords (fun _ => True) (Pool.openNext s) (Pool.openNext t) := by
  refine .bind h.selectReady fun id s t _ h => ?_
  refine .bind (h.onPartition (takeTerm_inWords _ id)) fun term s t _ h => ?_
  cases term with
  | none => exact .ok trivial h
  | some term =>
    refine .bind (.ofExcept term.peel.frontier h) fun frontier s t _ h => ?_
    refine .bind (h.record _) fun _ s t _ h => ?_
    exact .bind (h.commit id term.peel.kept) fun _ _ _ _ h => .ok trivial h

/-! ### Steps of a run -/

theorem mergeClasses (h : InWords s t) (hp : s.partition.Linked)
    (ha : a.index < s.partition.records.size) (hb : b.index < s.partition.records.size)
    (hdebt : s.partition.debt < UInt64.size) (hpos : 0 < s.remaining) :
    Alike InWords (fun _ => True) (Pool.mergeClasses a b s) (Pool.mergeClasses a b t) := by
  refine .bind_of_ok (h.find a) ?_
  rintro _ _ t₁ hok - h
  obtain ⟨rfl, q₁, hq₁, rfl⟩ := (find_ends (R := fun _ _ => True) hp a).of_ok hok
  refine .bind_of_ok (h.find b) ?_
  rintro _ _ t₂ hok - ⟨rfl, hlt⟩
  obtain ⟨rfl, q₂, hq₂, rfl⟩ := (find_ends (R := fun _ _ => True) hq₁.linked b).of_ok hok
  replace hq₂ := hq₁.trans hq₂
  refine .get_bind ?_
  rw [mergeEvent?_inWords]
  refine .bind_of_ok (.optionForM (fun e _ _ h => h.record e) _ ⟨rfl, hlt⟩) ?_
  rintro _ _ t₃ hok - h
  obtain ⟨journal, rfl⟩ := (forM_record_ends (R := fun _ _ => True) _).of_ok hok
  have hmerge : Partition.SameInWords (Partition.merge (s.partition.resolve a) (q₁.resolve b)) q₂ := by
    rw [hq₁.resolve]
    refine merge_inWords hq₂.linked ?_ ?_ fun plan hplan => ?_
    · rw [hq₂.size]
      exact hp.resolve_lt ha
    · rw [hq₂.size]
      exact hp.resolve_lt hb
    · rw [hq₂.absorption?_resolve hp] at hplan
      have hsum := (hp.absorption_sound ha hb hplan).debt_eq hp
      rw [hq₂.classAt]
      omega
  refine .bind_of_ok (h.onPartition hmerge) ?_
  rintro survivor s₄ _ hok - ⟨rfl, hlt₄⟩
  have hremaining : s₄.remaining = s.remaining := (remaining_eq_of_onPartition hok).trans rfl
  have hpred : ∀ k : Arithmetic, k.pred s₄.remaining = s₄.remaining - 1 :=
    fun k => k.pred_of_pos (hremaining ▸ hpos) hlt₄
  split_ifs
  · refine .bind (.modify (P := fun _ => True) trivial ⟨?_, ?_⟩) fun _ _ _ _ h => .ok trivial h
    · rw [hpred, inWords, inWords, hpred]
    · rw [hpred]
      exact (Nat.sub_le _ 1).trans_lt hlt₄
  · exact .ok trivial ⟨rfl, hlt₄⟩

theorem join {term : Option Multiterm} (h : InWords s t)
    (hinv : Invariant S n s closed [v] (u :: occ) (⟨⟨v :: u :: vs⟩, term⟩ :: cells))
    (hwithin : Within w s) (hw : w < UInt64.size) (hv : s.partition.owner? v = some a) :
    Alike InWords (fun _ => True) (Pool.join a u s) (Pool.join a u t) := by
  refine .bind_of_ok (h.payOffVar u) ?_
  rintro b s₁ t₁ hok - h₁
  obtain ⟨hu, howner, hinv₁⟩ := hinv.payOffVar_ends.of_ok hok
  obtain ⟨-, -, k, rfl, hwithin₁⟩ := (hwithin.payOffVar_ends u).of_ok hok
  have hv₁ : s₁.partition.owner? v = some a := by rw [howner, hv]
  split_ifs
  · exact .ok trivial h₁
  · have hdebt : s₁.partition.debt ≤ k := (Nat.le_add_left _ _).trans hwithin₁.work_le
    -- the class of the first variable is open, and so is counted
    obtain ⟨id, hid, -⟩ := hinv₁.held_open v (by simp)
    refine h₁.mergeClasses hinv₁.proper.linked (hinv₁.proper.owner_live hv₁).1
      (hinv₁.proper.owner_live hu).1 (by omega) ?_
    rw [hinv₁.remaining]
    exact List.length_pos_of_mem hid

theorem settle {c : Cell} (h : InWords s t)
    (hinv : Invariant S n s closed [] (Cell.varsOfArgs (c :: cells)) (c :: cells))
    (hwithin : Within w s) (hw : w < UInt64.size) (hc : c.vars.toList ≠ []) :
    Alike InWords (fun _ => True) (Pool.settle c s) (Pool.settle c t) := by
  obtain ⟨⟨vs⟩, term⟩ := c
  obtain ⟨v, vs, rfl⟩ := List.exists_cons_of_ne_nil hc
  rw [Cell.varsOfArgs_cons, List.append_assoc] at hinv
  change Alike InWords _ ((Pool.payOffVar v >>= _) s) ((Pool.payOffVar v >>= _) t)
  refine .bind_of_ok (h.payOffVar v) ?_
  rintro a s₁ t₁ hok - h₁
  obtain ⟨hv, -, hinv₁⟩ := hinv.payOffVar_ends.of_ok hok
  obtain ⟨-, -, k, rfl, hwithin₁⟩ := (hwithin.payOffVar_ends v).of_ok hok
  refine .bind (.foldlM_of_ends (fun a us s => (s.partition.owner? v = some a ∧
    Invariant S n s closed [v] (us ++ (Multiterm.varsOfOption term ++ Cell.varsOfArgs cells))
      (⟨⟨v :: us⟩, term⟩ :: cells)) ∧ Within k s) ?_ ?_ vs ⟨⟨hv, hinv₁⟩, hwithin₁⟩ h₁) ?_
  · rintro a u us s ⟨⟨hv, hinv⟩, hwithin⟩
    refine ((hinv.join_ends hv).and (hwithin.join_ends hv u)).mono ?_ fun _ _ _ => trivial
    exact fun a s h => ⟨h.1, h.2.2⟩
  · rintro a u us s t ⟨⟨hv, hinv⟩, hwithin⟩ h
    exact h.join hinv hwithin (by omega) hv
  intro a s₂ t₂ _ h₂
  refine .bind (.optionForM (fun term _ _ h => h.commit a term) term h₂) ?_
  rintro _ s₃ t₃ - h₃
  refine .get_bind ?_
  rw [h₃.eq, show s₃.inWords.partition.classAt = s₃.partition.classAt from classAt_inWords _]
  obtain ⟨rfl, hlt⟩ := h₃
  split_ifs
  · refine .bind (record ⟨rfl, hlt⟩ _) ?_
    rintro _ s₄ _ - ⟨rfl, hlt⟩
    exact .modify trivial ⟨rfl, hlt⟩
  · exact .ok trivial ⟨rfl, hlt⟩

theorem snapshot_inWords (s : Pool) : s.inWords.snapshot = s.snapshot := by
  have hsummary : s.inWords.partition.summary = s.partition.summary := by
    funext id
    rw [summary, summary, inWords, classAt_inWords]
  rw [snapshot, snapshot, hsummary]
  rfl

theorem compact (h : InWords s t)
    (hinv : Invariant S n s closed [] (Cell.varsOfArgs cells) cells) (hwithin : Within w s)
    (hw : w < UInt64.size)
    (hcells : ∀ c ∈ cells, c.vars.toList ≠ [] ∧ ∀ t, c.term = some t → t.Filled) :
    Alike InWords (fun _ => True) (Pool.compact cells s) (Pool.compact cells t) := by
  have hreverse := hinv.perm (varsOfArgs_reverse_perm cells) fun c => List.mem_reverse
  refine .bind (.forM_of_ends (fun cs s => ((∀ c ∈ cs, c ∈ cells) ∧
    Invariant S n s closed [] (Cell.varsOfArgs cs) cs) ∧ Within w s) ?_ ?_ cells.reverse
    ⟨⟨fun c => List.mem_reverse.1, hreverse⟩, hwithin⟩ h) ?_
  · rintro c cs s ⟨⟨hsub, hinv⟩, hwithin⟩
    rw [List.forall_mem_cons] at hsub
    obtain ⟨hne, hfilled⟩ := hcells c hsub.1
    refine ((hinv.settle_ends hne hfilled).and (hwithin.settle_ends c)).mono ?_ fun _ _ _ => trivial
    exact fun _ s h => ⟨⟨hsub.2, h.1⟩, h.2⟩
  · rintro c cs s t ⟨⟨hsub, hinv⟩, hwithin⟩ h
    exact h.settle hinv hwithin hw (hcells c (hsub c List.mem_cons_self)).1
  · rintro _ s _ - ⟨rfl, hlt⟩
    refine .get_bind ?_
    rw [snapshot_inWords]
    exact record ⟨rfl, hlt⟩ _

theorem dischargeNext (h : InWords s t) (hinv : Invariant S n s closed [] [] [])
    (hwithin : Within w s) (hw : w < UInt64.size) :
    Alike InWords (fun _ => True) (Pool.dischargeNext s) (Pool.dischargeNext t) := by
  rw [dischargeNext_eq]
  refine .bind_of_ok h.openNext ?_
  rintro ⟨id, frontier⟩ s₁ t₁ hok - h₁
  obtain ⟨-, hinv₁, hcells⟩ := hinv.openNext_ends.of_ok hok
  obtain ⟨k, rfl, hwithin₁⟩ := hwithin.openNext_ends.of_ok hok
  refine .bind (P := fun _ => True) ?_ fun _ _ _ _ h => h.find id
  cases frontier with
  | none => exact .ok trivial h₁
  | some frontier => exact h₁.compact hinv₁ hwithin₁ (by omega) hcells

theorem dischargeUpTo (h : InWords s t) (hinv : Invariant S n s closed [] [] [])
    (hwithin : Within w s) (hw : w < UInt64.size) (k : ℕ) :
    Alike InWords (fun _ => True) (Pool.dischargeUpTo k s) (Pool.dischargeUpTo k t) := by
  induction k generalizing closed s t w with
  | zero => exact .ok trivial h
  | succ k ih =>
    refine .get_bind ?_
    rw [show t.remaining = s.remaining by rw [h.eq]; rfl]
    split_ifs
    · exact .ok trivial h
    · refine .bind_of_ok (h.dischargeNext hinv hwithin hw) ?_
      rintro id s₁ t₁ hok - h₁
      obtain ⟨w, rfl, hwithin₁⟩ := hwithin.dischargeNext_ends.of_ok hok
      have hinv₁ := hinv.dischargeNext_ends.of_ok hok
      exact .bind (ih h₁ hinv₁ hwithin₁ (by omega)) fun _ _ _ _ h => .ok trivial h

/-- A run with the invariant comes to the same in words if there is room for its work. -/
theorem discharge (h : InWords s t) (hinv : Invariant S n s closed [] [] [])
    (hwork : s.work < UInt64.size) :
    Alike InWords (fun _ => True) (Pool.discharge s) (Pool.discharge t) := by
  refine .get_bind ?_
  have heq : t.work = s.work := by
    rw [h.eq, work, work, inWords, debt_inWords]
  rw [heq]
  exact h.dischargeUpTo hinv ⟨hinv.proper.toWellFormed, le_rfl⟩ hwork _

end InWords

end Pool

/-! ### What is reached -/

namespace Partition

variable {p q : Partition}

/-- No occurrences have been counted yet in a reached partition. -/
theorem Reached.pending_eq_zero (h : p.Reached) (id : ClassId) : (p.classAt id).pending = 0 := by
  induction h generalizing id with
  | empty => rfl
  | @created p h ih =>
    rw [h.proper.linked.extended_freshVar.classAt]
    split_ifs
    · rfl
    · exact ih id
  | found h hok ih =>
    rw [(h.proper.linked.findOwner_ok hok).2.classAt]
    exact ih id
  | @merged p q a b _ h ha hb hok ih =>
    obtain ⟨-, -, hq⟩ | ⟨plan, m, -, -, -, hq⟩ := (h.proper.linked.merge_leaves ha hb).of_ok hok
    · rw [hq.classAt]
      exact ih id
    · rw [hq.classAt]
      split_ifs
      · simp only [joinMembers, ih]
        exact Arithmetic.add_of_lt _ (by decide)
      · exact ih id
  | @committed p q _ t h hid _ _ hok ih =>
    obtain ⟨m, -, hq⟩ := (h.proper.linked.commit_ends hid t).of_ok hok
    rw [hq.classAt]
    split_ifs
    · exact ih _
    · exact ih id

/-- A reached partition can be visited counting in words. -/
theorem Reached.visited (h : p.Reached) : p.inWords.Visited := by
  induction h with
  | empty => exact .empty
  | created _ ih => exact ih.freshVar
  | @found p q v id h hok ih =>
    obtain ⟨hv, -⟩ := h.proper.linked.findOwner_ok hok
    have hrun := (p.findOwner_inWords v).of_ok hok
    have hlt : v.index < p.varCount := owner?_isSome_iff.1 ⟨id, hv⟩
    have hvalid : (Operation.findOwner v).IsValid p.inWords := hlt
    have hq : (Operation.findOwner v).apply p.inWords = q.inWords := by
      rw [Operation.apply, leave, hrun]
    exact hq ▸ ih.apply hvalid
  | @merged p q a b id h ha hb hok ih =>
    have hrun := (merge_inWords h.proper.linked ha hb fun plan _ => by
      rw [h.pending_eq_zero, h.pending_eq_zero]
      decide).of_ok hok
    have hvalid : (Operation.merge a b).IsValid p.inWords := ⟨ha, hb⟩
    have hq : (Operation.merge a b).apply p.inWords = q.inWords := by
      rw [Operation.apply, leave, hrun]
    exact hq ▸ ih.apply hvalid
  | @committed p q id t h hid _ _ hok ih =>
    have hrun := (p.commit_inWords id t).of_ok hok
    have hvalid : (Operation.commit id t).IsValid p.inWords := hid
    have hq : (Operation.commit id t).apply p.inWords = q.inWords := by
      rw [Operation.apply, leave, hrun]
    exact hq ▸ ih.apply hvalid

/-- Every occurrence belongs to one of the classes at most. -/
theorem sum_occurrencesOf_le (p : Partition) {ids : List ClassId} (hids : ids.Nodup)
    (vs : List Var) : (ids.map fun id => p.occurrencesOf id vs).sum ≤ vs.length := by
  induction ids generalizing vs with
  | nil => exact Nat.zero_le _
  | cons id ids ih =>
    rw [List.nodup_cons] at hids
    -- the others have what `id` has not
    have hothers : ids.map (fun j => p.occurrencesOf j vs) =
        ids.map fun j => p.occurrencesOf j (vs.filter fun v => p.owner? v ≠ some id) := by
      refine List.map_congr_left fun j hj => ?_
      rw [occurrencesOf, occurrencesOf, List.countP_filter]
      refine List.countP_congr fun v _ => ?_
      have hne : j ≠ id := fun h => hids.1 (h ▸ hj)
      simp only [decide_eq_true_eq, Bool.and_eq_true]
      exact ⟨fun hv => ⟨hv, fun hid => hne (Option.some.inj (hv.symm.trans hid))⟩, And.left⟩
    have hrest := ih hids.2 (vs.filter fun v => p.owner? v ≠ some id)
    rw [← List.countP_eq_length_filter] at hrest
    have hlength := vs.length_eq_countP_add_countP fun v => p.owner? v = some id
    simp only [decide_eq_true_eq] at hlength
    rw [List.map_cons, List.sum_cons, hothers, occurrencesOf, hlength]
    exact Nat.add_le_add_left hrest _

theorem debt_le_of_pending {vs : List Var}
    (h : ∀ id ∈ p.liveClasses, (p.classAt id).pending = p.occurrencesOf id vs) :
    p.debt ≤ vs.length := by
  rw [debt_eq_sum, List.map_congr_left h]
  exact p.sum_occurrencesOf_le (nodup_liveClasses p) vs

theorem length_liveClasses_le (p : Partition) : p.liveClasses.length ≤ p.records.size := by
  refine (List.length_filter_le _ _).trans_eq ?_
  rw [List.length_map, List.length_range]

end Partition

namespace Pool

open Multiequation.Partition

theorem ofPartition_inWords (p : Partition) (journal : Journal) :
    ofPartition p.inWords journal = (ofPartition p journal).inWords := by
  rw [ofPartition, ofPartition, classAt_inWords]
  rfl

/-- In words the occurrences of a reached partition are counted as without a bound, and the pool made of
it is discharged alike, if a word has room for its classes and occurrences. -/
theorem discharge_inWords {p : Partition} (h : p.Reached) (journal : Journal)
    (hroom : p.records.size + p.occurrences.length < UInt64.size) :
    ∃ q, Partition.countOccurrences p = .ok ⟨⟩ q ∧
      Partition.countOccurrences p.inWords = .ok ⟨⟩ q.inWords ∧
      Alike InWords (fun _ => True) (discharge (ofPartition q journal))
        (discharge (ofPartition q.inWords journal)) := by
  have hp := h.proper
  obtain ⟨_, q, hok, ⟨g, hq⟩, hcount⟩ := hp.countOccurrences_ends.exists_ok
  have hstart := invariant_ofPartition (hq.proper hp) hcount journal
  have hlive : q.liveClasses.length ≤ p.records.size := hq.size ▸ q.length_liveClasses_le
  have hdebt : q.debt ≤ p.occurrences.length := by
    rw [← hq.occurrences hp.linked]
    exact debt_le_of_pending hcount
  have hready : (ofPartition q journal).ready.length ≤ q.liveClasses.length :=
    List.length_filter_le _ _
  refine ⟨q, hok, (countOccurrences_inWords hp.linked hp.arithmetic (by omega)).of_ok hok, ?_⟩
  rw [ofPartition_inWords]
  refine InWords.discharge ⟨rfl, ?_⟩ hstart ?_
  · exact hlive.trans_lt (by omega)
  · rw [work]
    have : (ofPartition q journal).partition.debt = q.debt := rfl
    omega

end Pool

end Multiequation
