import Multiequation.Partition.Merge
import Multiequation.Proofs.Partition.Classes

/-!
# The operations on partitions

What creating a variable, paying off an occurrence, committing a multiterm and merging two classes do
to a partition. A class is changed in one place only; a merge of two classes leaves the survivor with
the members, the pending counts and the merged multiterms of both, and every other class as it was.
-/

namespace Multiequation.Partition

variable {p q : Partition} {id a b : ClassId} {v : Var}

/-! ### Pending counts and multiterms -/

/-- Paying off an occurrence lowers a pending count by one, and fails only at the count zero. -/
theorem Linked.payOff_leaves (h : p.Linked) (hid : id.index < p.records.size) :
    Ends (payOff id) p
      (fun n q => (p.classAt id).pending = n + 1 ∧
        Updated p q (p.resolve id) { p.classAt id with pending := n })
      fun e _ => e = .pendingUnderflow (p.resolve id) ∧ (p.classAt id).pending = 0 := by
  have hfind := h.similar_find id
  refine Ends.bind (P := fun root q => root = p.resolve id ∧ Similar p q)
    (ends_modifyGet ⟨rfl, hfind⟩) ?_
  rintro _ q ⟨rfl, hq⟩
  refine ends_get_bind ?_
  rw [hq.classAt, classAt_resolve h]
  cases hn : (p.classAt id).pending with
  | zero => exact ends_throw ⟨rfl, rfl⟩
  | succ n =>
    refine ends_modify_bind (ends_pure ⟨rfl, ?_⟩)
    have hlt : (p.resolve id).index < q.records.size := by
      rw [hq.size]
      exact h.resolve_lt hid
    have hup := hq.linked.updated_update (fun cls => { cls with pending := n }) hlt
    rw [hq.classAt, classAt_resolve h, hq.resolve, h.resolve_resolve] at hup
    exact hq.trans_updated hup

/-- A class with occurrences left to pay off has one less afterwards. -/
theorem Linked.payOff_ends (h : p.Linked) (hid : id.index < p.records.size) {n : ℕ}
    (hn : (p.classAt id).pending = n + 1) :
    Ends (payOff id) p
      (fun _ q => Updated p q (p.resolve id) { p.classAt id with pending := n })
      fun _ _ => False := by
  refine (h.payOff_leaves hid).mono ?_ ?_
  · rintro k q ⟨hk, hq⟩
    obtain rfl : n = k := Nat.succ.inj (hn.symm.trans hk)
    exact hq
  · rintro _ _ ⟨-, hzero⟩
    cases hn.symm.trans hzero

theorem Linked.updated_takeTerm (h : p.Linked) (hid : id.index < p.records.size) :
    Updated p (p.takeTerm id).2 (p.resolve id) { p.classAt id with term := none } :=
  h.updated_update (fun cls => { cls with term := none }) hid

/-- A committed multiterm is merged into the one of the class; a clash is the only failure and takes
the multiterm out of the class. -/
theorem Linked.commit_leaves (h : p.Linked) (hid : id.index < p.records.size) (t : Multiterm) :
    Ends (commit id t) p
      (fun _ q => ∃ m, Multiterm.mergeOption (p.classAt id).term (some t) = .ok m ∧
        Updated p q (p.resolve id) { p.classAt id with term := m })
      fun e q => (∃ c, e = .clash c ∧
        Multiterm.mergeOption (p.classAt id).term (some t) = .error c) ∧
          Updated p q (p.resolve id) { p.classAt id with term := none } := by
  refine Ends.bind (P := fun old q => old = (p.classAt id).term ∧
    Updated p q (p.resolve id) { p.classAt id with term := none })
    (ends_modifyGet ⟨rfl, h.updated_takeTerm hid⟩) ?_
  rintro _ q ⟨rfl, hq⟩
  cases hm : Multiterm.mergeOption (p.classAt id).term (some t) with
  | error c => exact ends_throw ⟨⟨c, rfl, rfl⟩, hq⟩
  | ok m =>
    refine ends_modify ⟨m, rfl, hq.trans ?_⟩
    have hup := hq.linked.updated_update (fun cls => { cls with term := m }) (hq.size ▸ hid)
    rwa [hq.classAt_self, hq.resolve] at hup

theorem Linked.commit_ends (h : p.Linked) (hid : id.index < p.records.size) (t : Multiterm) :
    Ends (commit id t) p
      (fun _ q => ∃ m, Multiterm.mergeOption (p.classAt id).term (some t) = .ok m ∧
        Updated p q (p.resolve id) { p.classAt id with term := m })
      fun e _ => ∃ c, e = .clash c ∧
        Multiterm.mergeOption (p.classAt id).term (some t) = .error c :=
  (h.commit_leaves hid t).mono (fun _ _ hq => hq) fun _ _ he => he.1

/-- A multiterm that is committed to a class right after its multiterm was taken out replaces that
one. -/
theorem Linked.replaceTerm_ends (h : p.Linked) (hid : id.index < p.records.size) (t : Multiterm) :
    Ends (commit id t) (p.takeTerm id).2
      (fun _ q => Updated p q (p.resolve id) { p.classAt id with term := some t })
      fun _ _ => False := by
  have htake := h.updated_takeTerm hid
  have hcommit := htake.linked.commit_ends (htake.size ▸ hid) t
  rw [htake.classAt_self, htake.resolve] at hcommit
  refine hcommit.mono ?_ ?_
  · rintro _ q ⟨m, hm, hq⟩
    cases hm
    exact htake.trans hq
  · rintro _ _ ⟨c, -, hm⟩
    cases hm

/-! ### Merging -/

theorem absorption?_eq_none (h : p.absorption? a b = none) : p.resolve a = p.resolve b := by
  by_contra hne
  simp only [absorption?, hne, if_false] at h
  split_ifs at h

theorem absorption?_eq_some {plan : Absorption} (h : p.absorption? a b = some plan) :
    p.resolve a ≠ p.resolve b ∧
      (plan = ⟨p.resolve a, p.resolve b⟩ ∨ plan = ⟨p.resolve b, p.resolve a⟩) := by
  simp only [absorption?] at h
  split_ifs at h with hab hle
  · exact ⟨hab, .inl (Option.some.inj h).symm⟩
  · exact ⟨hab, .inr (Option.some.inj h).symm⟩

/-- A plan for two different live classes. -/
structure Absorption.Sound (plan : Absorption) (p : Partition) : Prop where
  survivor_lt : plan.survivor.index < p.records.size
  survivor_live : p.resolve plan.survivor = plan.survivor
  absorbed_lt : plan.absorbed.index < p.records.size
  absorbed_live : p.resolve plan.absorbed = plan.absorbed
  ne : plan.survivor ≠ plan.absorbed

theorem Absorption.Sound.survivor_mem {plan : Absorption} (h : plan.Sound p) (hp : p.Linked) :
    plan.survivor ∈ p.liveClasses :=
  (mem_liveClasses hp).2 ⟨h.survivor_lt, h.survivor_live⟩

theorem Absorption.Sound.absorbed_mem {plan : Absorption} (h : plan.Sound p) (hp : p.Linked) :
    plan.absorbed ∈ p.liveClasses :=
  (mem_liveClasses hp).2 ⟨h.absorbed_lt, h.absorbed_live⟩

/-- `q` is `p` after the survivor of the plan took over everything of the absorbed class; `term` is
what their multiterms became. -/
structure Merged (p q : Partition) (plan : Absorption) (term : Option Multiterm) : Prop where
  size : q.records.size = p.records.size
  varCount : q.varCount = p.varCount
  linked : q.Linked
  resolve : ∀ j, q.resolve j =
    if p.resolve j = plan.absorbed then plan.survivor else p.resolve j
  owner : ∀ v, q.owner? v =
    (p.owner? v).map fun id => if id = plan.absorbed then plan.survivor else id
  classAt : ∀ j, q.classAt j =
    if q.resolve j = plan.survivor then
      { joinMembers p.arithmetic (p.classAt plan.survivor) (p.classAt plan.absorbed) with term }
    else p.classAt j
  arithmetic : q.arithmetic = p.arithmetic

namespace Merged

variable {plan : Absorption} {term : Option Multiterm}

theorem resolve_survivor (h : Merged p q plan term) (hplan : plan.Sound p) :
    q.resolve plan.survivor = plan.survivor := by
  rw [h.resolve, hplan.survivor_live, if_neg hplan.ne]

theorem classAt_survivor (h : Merged p q plan term) (hplan : plan.Sound p) :
    q.classAt plan.survivor =
      { joinMembers p.arithmetic (p.classAt plan.survivor) (p.classAt plan.absorbed) with term } := by
  rw [h.classAt, if_pos (h.resolve_survivor hplan)]

theorem pending_survivor (h : Merged p q plan term) (hplan : plan.Sound p) :
    (q.classAt plan.survivor).pending =
      p.arithmetic.add (p.classAt plan.survivor).pending (p.classAt plan.absorbed).pending := by
  rw [h.classAt_survivor hplan]
  rfl

/-- Every other live class holds what it held. -/
theorem classAt_of_ne (h : Merged p q plan term) {j : ClassId} (hj : p.resolve j = j)
    (hs : j ≠ plan.survivor) (ha : j ≠ plan.absorbed) : q.classAt j = p.classAt j := by
  rw [h.classAt, h.resolve, hj, if_neg ha, if_neg hs]

end Merged

/-- The record of a live class that has been taken away is that of a live class without contents. -/
theorem forward?_vacate (hid : p.forward? id = none) : (p.vacate id).forward? = p.forward? := by
  funext j
  obtain ⟨i⟩ := id
  obtain ⟨k⟩ := j
  by_cases hk : i = k
  · subst hk
    rw [hid, forward?, vacate, Array.getElem?_setIfInBounds, if_pos rfl]
    split_ifs <;> rfl
  · simp only [forward?, vacate, Array.getElem?_setIfInBounds, if_neg hk]

theorem contents?_vacate (hid : id.index < p.records.size) (j : ClassId) :
    (p.vacate id).contents? j = if id = j then some default else p.contents? j := by
  obtain ⟨i⟩ := id
  obtain ⟨k⟩ := j
  simp only [contents?, vacate, Array.getElem?_setIfInBounds, ClassId.mk.injEq, if_pos hid]
  split_ifs <;> rfl

theorem size_records_vacate (p : Partition) (id : ClassId) :
    (p.vacate id).records.size = p.records.size := by
  simp [vacate]

/-- A live class that has been taken away resolves as before. -/
theorem Linked.linked_vacate (h : p.Linked) (hid : id.index < p.records.size)
    (hroot : p.resolve id = id) : (p.vacate id).Linked ∧ (p.vacate id).resolve = p.resolve := by
  have hfwd := forward?_vacate (hroot ▸ h.forward?_resolve id)
  have hsize := size_records_vacate p id
  refine ⟨linked_congr hsize hfwd h.owners_lt (fun {j k} hjk => ?_) h, resolve_congr hsize hfwd⟩
  rw [contents?_vacate hid]
  split_ifs
  · rfl
  · exact h.emptied hjk

theorem size_records_retire (p : Partition) (plan : Absorption) :
    (p.retire plan).records.size = p.records.size := by
  rw [retire, size_records_redirect, size_records_vacate]

/-- A class that was emptied and linked to the survivor leads to it, and what the others have stays. -/
theorem Linked.retire (h : p.Linked) {plan : Absorption} (hplan : plan.Sound p) :
    (p.retire plan).Linked ∧
    (∀ j, (p.retire plan).resolve j =
      if p.resolve j = plan.absorbed then plan.survivor else p.resolve j) ∧
    ∀ j, (p.retire plan).classAt j =
      if p.resolve j = plan.absorbed then p.classAt plan.survivor else p.classAt j := by
  obtain ⟨hvacate, hresolve₀⟩ := h.linked_vacate hplan.absorbed_lt hplan.absorbed_live
  have hcontents := contents?_vacate hplan.absorbed_lt
  have habsorbed := hvacate.forward?_resolve plan.absorbed
  have hsurvivor := hvacate.forward?_resolve plan.survivor
  rw [hresolve₀, hplan.absorbed_live] at habsorbed
  rw [hresolve₀, hplan.survivor_live] at hsurvivor
  have hsize := size_records_vacate p plan.absorbed
  obtain ⟨hlinked, hresolve⟩ := hvacate.resolve_redirect_live habsorbed
    (hsize ▸ hplan.absorbed_lt) (by rw [hcontents, if_pos rfl]) hsurvivor
    (hsize ▸ hplan.survivor_lt) hplan.ne
  rw [hresolve₀] at hresolve
  refine ⟨hlinked, fun j => by rw [Partition.retire, hresolve], fun j => ?_⟩
  rw [classAt, Partition.retire, contents?_redirect, congrFun hresolve j, hcontents]
  by_cases hj : p.resolve j = plan.absorbed
  · simp only [if_pos hj, if_neg hplan.ne.symm]
    rw [classAt, hplan.survivor_live]
  · simp only [if_neg hj, if_neg (Ne.symm hj)]
    rw [classAt]

/-- Once the absorbed class is a link, only what the survivor holds is still to be changed. -/
theorem Linked.merged_of_updated (h : p.Linked) {plan : Absorption} (hplan : plan.Sound p)
    {term : Option Multiterm}
    (hq : Updated (p.retire plan) q plan.survivor
      { joinMembers p.arithmetic (p.classAt plan.survivor) (p.classAt plan.absorbed) with term }) :
    Merged p q plan term := by
  obtain ⟨-, hresolve, hclassAt⟩ := h.retire hplan
  have hresolve' : ∀ j, q.resolve j =
      if p.resolve j = plan.absorbed then plan.survivor else p.resolve j :=
    fun j => (congrFun hq.resolve j).trans (hresolve j)
  refine ⟨?_, hq.varCount, hq.linked, hresolve', fun v => ?_, fun j => ?_, hq.arithmetic⟩
  · exact hq.size.trans (size_records_retire p plan)
  · refine (congrFun hq.owner v).trans ?_
    rw [owner?, owner?, Option.map_map]
    exact congrArg (Option.map · _) (funext hresolve)
  · rw [hresolve', hq.classAt, hresolve]
    by_cases hj : p.resolve j = plan.absorbed
    · rw [if_pos hj, if_pos rfl, if_pos rfl]
    · rw [if_neg hj, hclassAt, if_neg hj]

/-- The survivor takes over what the absorbed class has, but for the multiterms when they clash. -/
theorem Linked.absorb_leaves (h : p.Linked) {plan : Absorption} (hplan : plan.Sound p) :
    Ends (absorb plan) p
      (fun _ q => ∃ m, Multiterm.mergeOption (p.classAt plan.survivor).term
        (p.classAt plan.absorbed).term = .ok m ∧ Merged p q plan m)
      fun e q => ∃ c, e = .clash c ∧ Multiterm.mergeOption (p.classAt plan.survivor).term
        (p.classAt plan.absorbed).term = .error c ∧ Merged p q plan none := by
  obtain ⟨hlinked, hresolve, hclassAt⟩ := h.retire hplan
  have hroot : (p.retire plan).resolve plan.survivor = plan.survivor := by
    rw [hresolve, hplan.survivor_live, if_neg hplan.ne]
  have hcls : (p.retire plan).classAt plan.survivor = p.classAt plan.survivor := by
    rw [hclassAt, hplan.survivor_live, if_neg hplan.ne]
  have hjoin := hlinked.updated_updateLive (joinMembers p.arithmetic · (p.classAt plan.absorbed))
    (by rw [size_records_retire]; exact hplan.survivor_lt) hroot
  rw [hcls] at hjoin
  refine ends_get_bind ?_
  refine Ends.bind (P := fun _ q => Updated (p.retire plan) q plan.survivor
    (joinMembers p.arithmetic (p.classAt plan.survivor) (p.classAt plan.absorbed)))
    (ends_set hjoin) ?_
  intro _ q hq
  cases hm : Multiterm.mergeOption (p.classAt plan.survivor).term
      (p.classAt plan.absorbed).term with
  | error c => exact ends_throw ⟨c, rfl, rfl, h.merged_of_updated hplan hq⟩
  | ok m =>
    have hlt : plan.survivor.index < q.records.size := by
      rw [hq.size, size_records_retire]
      exact hplan.survivor_lt
    have hup := hq.linked.updated_update (fun cls => { cls with term := m }) hlt
    rw [hq.classAt, if_pos hroot, hq.resolve, hroot] at hup
    exact ends_modify ⟨m, rfl, h.merged_of_updated hplan (hq.trans hup)⟩

theorem Linked.absorption_sound (h : p.Linked) (ha : a.index < p.records.size)
    (hb : b.index < p.records.size) {plan : Absorption} (hplan : p.absorption? a b = some plan) :
    plan.Sound p := by
  obtain ⟨hne, rfl | rfl⟩ := absorption?_eq_some hplan
  · exact ⟨h.resolve_lt ha, h.resolve_resolve a, h.resolve_lt hb, h.resolve_resolve b, hne⟩
  · exact ⟨h.resolve_lt hb, h.resolve_resolve b, h.resolve_lt ha, h.resolve_resolve a, hne.symm⟩

theorem Similar.sound (hq : Similar p q) {plan : Absorption} (h : plan.Sound p) : plan.Sound q := by
  constructor
  · exact hq.size ▸ h.survivor_lt
  · exact hq.resolve ▸ h.survivor_live
  · exact hq.size ▸ h.absorbed_lt
  · exact hq.resolve ▸ h.absorbed_live
  · exact h.ne

theorem Similar.trans_merged {r : Partition} (h₁ : Similar p q) {plan : Absorption}
    {term : Option Multiterm} (h₂ : Merged q r plan term) : Merged p r plan term where
  size := h₂.size.trans h₁.size
  varCount := h₂.varCount.trans h₁.varCount
  linked := h₂.linked
  resolve j := by rw [h₂.resolve, h₁.resolve]
  owner v := by rw [h₂.owner, h₁.owner]
  classAt j := by rw [h₂.classAt, h₁.classAt, h₁.arithmetic]
  arithmetic := h₂.arithmetic.trans h₁.arithmetic

/-- Which class absorbs which is the same for all numbers of the two classes. -/
theorem Similar.absorption?_resolve (h : p.Linked) (hq : Similar p q) (a b : ClassId) :
    q.absorption? (p.resolve a) (p.resolve b) = p.absorption? a b := by
  simp only [absorption?, hq.resolve, hq.classAt, h.resolve_resolve]

/-- A merge of two classes makes the one absorb the other; a clash is the only failure and leaves the
survivor without a multiterm. -/
theorem Linked.merge_leaves (h : p.Linked) (ha : a.index < p.records.size)
    (hb : b.index < p.records.size) :
    Ends (merge a b) p
      (fun id q => (p.resolve a = p.resolve b ∧ id = p.resolve a ∧ Similar p q) ∨
        ∃ plan m, p.absorption? a b = some plan ∧ id = plan.survivor ∧
          Multiterm.mergeOption (p.classAt plan.survivor).term (p.classAt plan.absorbed).term =
            .ok m ∧ Merged p q plan m)
      fun e q => ∃ plan c, p.absorption? a b = some plan ∧ e = .clash c ∧
        Multiterm.mergeOption (p.classAt plan.survivor).term (p.classAt plan.absorbed).term =
          .error c ∧ Merged p q plan none := by
  refine Ends.bind (h.findRoot_ends a) ?_
  rintro _ q₁ ⟨rfl, hq₁⟩
  refine Ends.bind (hq₁.linked.findRoot_ends b) ?_
  rintro _ q₂ ⟨rfl, hq₂⟩
  replace hq₂ := hq₁.trans hq₂
  rw [hq₁.resolve]
  refine ends_get_bind ?_
  cases hplan : q₂.absorption? (p.resolve a) (p.resolve b) with
  | none =>
    have hab := absorption?_eq_none hplan
    rw [hq₂.resolve, h.resolve_resolve, h.resolve_resolve] at hab
    exact ends_pure (.inl ⟨hab, rfl, hq₂⟩)
  | some plan =>
    rw [hq₂.absorption?_resolve h] at hplan
    have habsorb := hq₂.linked.absorb_leaves (hq₂.sound (h.absorption_sound ha hb hplan))
    rw [hq₂.classAt] at habsorb
    refine Ends.bind (P := fun _ q => ∃ m, Multiterm.mergeOption (p.classAt plan.survivor).term
        (p.classAt plan.absorbed).term = .ok m ∧ Merged p q plan m) (habsorb.mono ?_ ?_) ?_
    · rintro _ q ⟨m, hm, hq⟩
      exact ⟨m, hm, hq₂.trans_merged hq⟩
    · rintro e q ⟨c, he, hc, hq⟩
      exact ⟨plan, c, hplan, he, hc, hq₂.trans_merged hq⟩
    · rintro _ q ⟨m, hm, hq⟩
      exact ends_pure (.inr ⟨plan, m, hplan, rfl, hm, hq⟩)

namespace Merged

variable {plan : Absorption} {term : Option Multiterm}

theorem owner?_eq_survivor_iff (h : Merged p q plan term) :
    q.owner? v = some plan.survivor ↔
      p.owner? v = some plan.survivor ∨ p.owner? v = some plan.absorbed := by
  rw [h.owner]
  cases p.owner? v with
  | none => simp
  | some id =>
    simp only [Option.map_some, Option.some.injEq]
    split_ifs with hid <;> simp [hid]

theorem owner?_eq_some_iff (h : Merged p q plan term) (hs : id ≠ plan.survivor)
    (ha : id ≠ plan.absorbed) : q.owner? v = some id ↔ p.owner? v = some id := by
  rw [h.owner]
  cases p.owner? v with
  | none => simp
  | some j =>
    simp only [Option.map_some, Option.some.injEq]
    split_ifs with hj
    · simp [hj, hs.symm, ha.symm]
    · rfl

/-- No variable is left in the absorbed class. -/
theorem ne_absorbed (h : Merged p q plan term) (hplan : plan.Sound p)
    (hv : q.owner? v = some id) : id ≠ plan.absorbed := by
  rintro rfl
  rw [h.owner] at hv
  obtain ⟨j, -, hj⟩ := Option.map_eq_some_iff.1 hv
  split_ifs at hj with habsorbed
  · exact hplan.ne hj
  · exact habsorbed hj

theorem mem_liveClasses (h : Merged p q plan term) (hp : p.Linked) (hplan : plan.Sound p) :
    id ∈ q.liveClasses ↔ id ∈ p.liveClasses ∧ id ≠ plan.absorbed := by
  rw [Partition.mem_liveClasses h.linked, Partition.mem_liveClasses hp, h.size, h.resolve]
  constructor
  · rintro ⟨hlt, hid⟩
    split_ifs at hid with ha
    · subst hid
      exact absurd (hplan.survivor_live.symm.trans ha) hplan.ne
    · exact ⟨⟨hlt, hid⟩, fun hne => ha (hne ▸ hid)⟩
  · rintro ⟨⟨hlt, hid⟩, hne⟩
    rw [hid, if_neg hne]
    exact ⟨hlt, rfl⟩

/-- One live class less is listed. -/
theorem liveClasses (h : Merged p q plan term) (hp : p.Linked) (hplan : plan.Sound p) :
    q.liveClasses = p.liveClasses.erase plan.absorbed := by
  rw [(nodup_liveClasses p).erase_eq_filter, Partition.liveClasses, Partition.liveClasses, h.size,
    List.filter_filter]
  refine List.filter_congr fun id hid => ?_
  have hmem : id ∈ q.liveClasses ↔ _ := h.mem_liveClasses hp hplan
  have hlt : id.index < p.records.size := by
    obtain ⟨i, hi, rfl⟩ := List.mem_map.1 hid
    exact List.mem_range.1 hi
  rw [Bool.eq_iff_iff, h.linked.isLive_iff, Bool.and_eq_true, hp.isLive_iff, bne_iff_ne]
  rw [Partition.mem_liveClasses h.linked, Partition.mem_liveClasses hp, h.size] at hmem
  tauto

/-- The survivor lists the variables of both classes. -/
theorem wellFormed (h : Merged p q plan term) (hp : p.WellFormed) (hplan : plan.Sound p) :
    q.WellFormed := by
  have hsurvivor : ∀ {u}, u ∈ (p.classAt plan.survivor).members.toList ↔
      p.owner? u = some plan.survivor := by
    intro u
    rw [hp.mem_members hplan.survivor_lt, hplan.survivor_live]
  have habsorbed : ∀ {u}, u ∈ (p.classAt plan.absorbed).members.toList ↔
      p.owner? u = some plan.absorbed := by
    intro u
    rw [hp.mem_members hplan.absorbed_lt, hplan.absorbed_live]
  constructor
  · exact h.linked
  · intro id u hid
    rw [h.size] at hid
    rw [h.classAt]
    by_cases hroot : q.resolve id = plan.survivor
    · rw [if_pos hroot, hroot, h.owner?_eq_survivor_iff]
      simp only [joinMembers, Queue.toList_append, List.mem_append, hsurvivor, habsorbed]
    · have hne : p.resolve id ≠ plan.absorbed := fun hne =>
        hroot (by rw [h.resolve, if_pos hne])
      have hq : q.resolve id = p.resolve id := by rw [h.resolve, if_neg hne]
      rw [if_neg hroot, hq, h.owner?_eq_some_iff (hq ▸ hroot) hne]
      exact hp.mem_members hid
  · intro id
    rw [h.classAt]
    split_ifs with hroot
    · refine List.Nodup.append (hp.members_nodup _) (hp.members_nodup _) fun u hs ha => ?_
      exact hplan.ne (Option.some.inj ((hsurvivor.1 hs).symm.trans (habsorbed.1 ha)))
    · exact hp.members_nodup id
  · intro id
    rw [h.classAt]
    split_ifs with hroot
    · simp [joinMembers, hp.memberCount_eq, Queue.length]
    · exact hp.memberCount_eq id
  · intro id hid
    rw [h.size] at hid
    rw [h.classAt]
    split_ifs with hroot
    · exact fun hnil => hp.members_ne_nil hplan.survivor_lt (List.append_eq_nil_iff.1 hnil).1
    · exact hp.members_ne_nil hid

end Merged

/-! ### Creating variables -/

/-- `q` is `p` with one more variable, which forms a class alone. -/
structure Extended (p q : Partition) : Prop where
  size : q.records.size = p.records.size + 1
  varCount : q.varCount = p.varCount + 1
  linked : q.Linked
  resolve : q.resolve = p.resolve
  owner : ∀ v, q.owner? v = if v.index = p.varCount then some ⟨p.records.size⟩ else p.owner? v
  classAt : ∀ j, q.classAt j =
    if j = ⟨p.records.size⟩ then ⟨.singleton ⟨p.varCount⟩, 1, 0, none⟩ else p.classAt j
  arithmetic : q.arithmetic = p.arithmetic

theorem forward?_freshVar (p : Partition) : p.freshVar.2.forward? = p.forward? := by
  funext j
  rw [forward?, forward?, freshVar, Array.getElem?_push]
  split_ifs with hj
  · rw [Array.getElem?_eq_none hj.ge]
    rfl
  · rfl

theorem contents?_freshVar (p : Partition) (j : ClassId) : p.freshVar.2.contents? j =
    if j = ⟨p.records.size⟩ then some ⟨.singleton ⟨p.varCount⟩, 1, 0, none⟩ else p.contents? j := by
  obtain ⟨j⟩ := j
  simp only [contents?, freshVar, Array.getElem?_push, ClassId.mk.injEq]
  split_ifs <;> rfl

theorem resolve_of_ge {j : ClassId} (hj : p.records.size ≤ j.index) : p.resolve j = j :=
  resolve_of_live (forward?_of_ge hj)

theorem Linked.resolve_eq_new_iff (h : p.Linked) {j : ClassId} :
    p.resolve j = ⟨p.records.size⟩ ↔ j = ⟨p.records.size⟩ := by
  constructor
  · intro hj
    by_cases hlt : j.index < p.records.size
    · have := h.resolve_lt hlt
      rw [hj] at this
      exact absurd this (lt_irrefl _)
    · rwa [resolve_of_ge (not_lt.1 hlt)] at hj
  · rintro rfl
    exact resolve_of_ge le_rfl

theorem Linked.extended_freshVar (h : p.Linked) : Extended p p.freshVar.2 := by
  have hfwd := forward?_freshVar p
  have hsize : p.freshVar.2.records.size = p.records.size + 1 := Array.size_push _
  have hlinked : p.freshVar.2.Linked := by
    constructor
    · intro i j hij
      rw [freshVar, Array.getElem?_push] at hij
      rw [hsize]
      split_ifs at hij with hi
      · cases hij
        exact Nat.lt_succ_self _
      · exact (h.owners_lt hij).trans (Nat.lt_succ_self _)
    · rw [hfwd, hsize]
      exact fun hij => (h.target_lt hij).trans (Nat.lt_succ_self _)
    · rw [hfwd]
      exact h.acyclic
    · rw [hfwd]
      intro i j hij
      have hne : i ≠ ⟨p.records.size⟩ := by
        rintro rfl
        exact (lt_of_forward? hij).false
      rw [contents?_freshVar, if_neg hne, h.emptied hij]
  have hresolve : p.freshVar.2.resolve = p.resolve := by
    refine hlinked.eq_resolve ?_ ?_
    · rw [hfwd]
      exact fun j hj => resolve_of_live hj
    · rw [hfwd]
      exact fun j k hjk => h.resolve_of_forward? hjk
  refine ⟨hsize, Array.size_push _, hlinked, hresolve, fun v => ?_, fun j => ?_, rfl⟩
  · rw [owner?, owner?, hresolve, freshVar, Array.getElem?_push, varCount]
    split_ifs with hv
    · rw [Option.map_some, h.resolve_eq_new_iff.2 rfl]
    · rfl
  · rw [classAt, classAt, hresolve, contents?_freshVar]
    simp only [h.resolve_eq_new_iff]
    split_ifs <;> rfl

namespace Extended

/-- The new class owns the new variable only. -/
theorem owner?_eq_new_iff (h : Extended p q) (hp : p.WellFormed) :
    q.owner? v = some ⟨p.records.size⟩ ↔ v.index = p.varCount := by
  rw [h.owner]
  split_ifs with hv
  · exact iff_of_true rfl hv
  · exact iff_of_false (fun hown => hp.owner_ne_new hown rfl) hv

theorem eq_of_owner_new (h : Extended p q) (hp : p.WellFormed) {u : Var}
    (hu : q.owner? u = some ⟨p.records.size⟩) (hv : q.owner? v = some ⟨p.records.size⟩) : u = v := by
  obtain ⟨i⟩ := u
  obtain ⟨j⟩ := v
  rw [h.owner?_eq_new_iff hp] at hu hv
  exact congrArg Var.mk (hu.trans hv.symm)

/-- The old classes own what they owned. -/
theorem owner?_eq_some_iff (h : Extended p q) (hid : id ≠ ⟨p.records.size⟩) :
    q.owner? v = some id ↔ p.owner? v = some id := by
  rw [h.owner]
  split_ifs with hv
  · refine iff_of_false (fun hnew => hid (Option.some.inj hnew).symm) fun hown => ?_
    exact (owner?_isSome_iff.1 ⟨id, hown⟩).ne hv
  · rfl

/-- The new class lists the new variable, and no other class does. -/
theorem wellFormed (h : Extended p q) (hp : p.WellFormed) : q.WellFormed := by
  have hne : ∀ {id : ClassId}, id.index < q.records.size → id ≠ ⟨p.records.size⟩ →
      id.index < p.records.size := by
    intro id hid hne
    rw [h.size] at hid
    exact lt_of_le_of_ne (Nat.le_of_lt_succ hid) fun heq => hne (ClassId.ext heq)
  constructor
  · exact h.linked
  · intro id v hid
    by_cases hnew : id = ⟨p.records.size⟩
    · subst hnew
      rw [h.classAt, if_pos rfl, h.resolve, hp.linked.resolve_eq_new_iff.2 rfl,
        h.owner?_eq_new_iff hp, Queue.toList_singleton, List.mem_singleton]
      obtain ⟨i⟩ := v
      simp
    · have hroot : p.resolve id ≠ ⟨p.records.size⟩ := mt hp.linked.resolve_eq_new_iff.1 hnew
      rw [h.classAt, if_neg hnew, h.resolve, h.owner?_eq_some_iff hroot]
      exact hp.mem_members (hne hid hnew)
  · intro id
    rw [h.classAt]
    split_ifs
    · simp
    · exact hp.members_nodup id
  · intro id
    rw [h.classAt]
    split_ifs
    · rfl
    · exact hp.memberCount_eq id
  · intro id hid
    rw [h.classAt]
    split_ifs with hnew
    · simp
    · exact hp.members_ne_nil (hne hid hnew)

theorem liveClasses (h : Extended p q) (hp : p.Linked) :
    q.liveClasses = p.liveClasses ++ [⟨p.records.size⟩] := by
  have hlive := isLive_congr hp h.linked h.resolve
  have hnew : p.isLive ⟨p.records.size⟩ := hp.isLive_iff.2 (hp.resolve_eq_new_iff.2 rfl)
  rw [Partition.liveClasses, h.size, hlive, List.range_succ, List.map_append,
    List.filter_append, List.map_singleton, List.filter_singleton, hnew]
  rfl

theorem classAt_of_live (h : Extended p q) (hp : p.Linked) (hid : id ∈ p.liveClasses) :
    q.classAt id = p.classAt id := by
  rw [h.classAt, if_neg]
  rintro rfl
  exact ((Partition.mem_liveClasses hp).1 hid).1.false

end Extended

end Multiequation.Partition
