import Multiequation.Proofs.Multiterm.Gathering
import Multiequation.Proofs.Pool.Open

/-!
# What updates leave in a partition

A partition is updated by merging the classes of two variables and by committing a multiterm to the
class of a variable. What a list of updates leaves is told by the list alone: the classes are those of
the equivalence that the merged pairs generate, the multiterm of a class gathers the multiterms that
were committed to its variables, and the occurrences are those in the committed multiterms. An update
fails only at a variable that does not exist, or at multiterms for one class that conflict.
-/

namespace Multiequation.Partition

/-! ### Updates -/

/-- What is done with the classes of variables. -/
inductive Update
  | merge (u v : Var)
  | commit (v : Var) (term : Multiterm)

namespace Update

/-- The variables whose classes are found. -/
def targets : Update → List Var
  | .merge u v => [u, v]
  | .commit v _ => [v]

/-- The occurrences of variables in the multiterm, if there is one. -/
def vars : Update → List Var
  | .merge _ _ => []
  | .commit _ t => t.vars

/-- Finds the classes and merges them, or commits the multiterm to the class. -/
def run : Update → PartitionM Unit
  | .merge u v => do
    let a ← findOwner u
    let b ← findOwner v
    let _ ← Partition.merge a b
  | .commit v term => do
    let id ← findOwner v
    Partition.commit id term

/-- Runs updates up to the first failure. -/
def runAll (U : List Update) : PartitionM Unit :=
  U.forM run

theorem runAll_cons (up : Update) (U : List Update) :
    runAll (up :: U) = up.run >>= fun _ => runAll U := rfl

theorem runAll_cons_of_ok {up : Update} {U : List Update} {p q : Partition}
    (h : up.run p = .ok ⟨⟩ q) : runAll (up :: U) p = runAll U q := by
  rw [runAll_cons]
  simp only [bind, EStateM.bind, h]

/-- The least equivalence in which variables whose classes are merged are equivalent. -/
def Identified (U : List Update) : Var → Var → Prop :=
  Relation.EqvGen fun u v => .merge u v ∈ U

/-- Two updates commit conflicting multiterms to what has to be one class. -/
def Conflicting (U : List Update) : Prop :=
  ∃ u v s t, .commit u s ∈ U ∧ .commit v t ∈ U ∧ Identified U u v ∧ (Cell.nested s).Conflict (.nested t)

/-- An update needs a variable other than the first `n`, or two updates conflict. -/
inductive Refuted (n : ℕ) (U : List Update) : Prop
  | unknown {up : Update} {v : Var} (mem : up ∈ U) (target : v ∈ up.targets) (le : n ≤ v.index)
  | conflicting (h : Conflicting U)

variable {U U' : List Update} {u v w : Var} {n : ℕ}

theorem Identified.mono (h : Identified U u v) (hU : U ⊆ U') : Identified U' u v :=
  Relation.EqvGen.mono (fun _ _ huv => hU huv) u v h

theorem Identified.symm (h : Identified U u v) : Identified U v u :=
  Relation.EqvGen.symm u v h

theorem Identified.trans (h : Identified U u v) (h' : Identified U v w) : Identified U u w :=
  Relation.EqvGen.trans u v w h h'

theorem identified_concat_merge : Identified (U ++ [.merge u v]) u v :=
  Relation.EqvGen.rel u v (List.mem_append_right _ (List.mem_singleton_self _))

theorem Conflicting.mono (h : Conflicting U) (hU : U ⊆ U') : Conflicting U' := by
  obtain ⟨u, v, s, t, hs, ht, huv, hst⟩ := h
  exact ⟨u, v, s, t, hU hs, hU ht, huv.mono hU, hst⟩

theorem Refuted.mono (h : Refuted n U) (hU : U ⊆ U') : Refuted n U' := by
  cases h with
  | unknown hup hv hle => exact .unknown (hU hup) hv hle
  | conflicting h => exact .conflicting (h.mono hU)

end Update

open Update

variable {U : List Update} {p q : Partition} {id root : ClassId} {u v : Var} {t : Multiterm}
  {m : Option Multiterm}

/-! ### The multiterms of a class -/

/-- The multiterms that are committed to the variables of the class `id`. -/
def termsOf (U : List Update) (p : Partition) (id : ClassId) : List Multiterm :=
  U.filterMap fun
    | .merge _ _ => none
    | .commit v t => if p.owner? v = some id then some t else none

theorem mem_termsOf : t ∈ termsOf U p id ↔ ∃ v, .commit v t ∈ U ∧ p.owner? v = some id := by
  rw [termsOf, List.mem_filterMap]
  constructor
  · rintro ⟨_ | ⟨v, t'⟩, hup, ht⟩
    · cases ht
    · dsimp only at ht
      split_ifs at ht with hv
      cases ht
      exact ⟨v, hup, hv⟩
  · rintro ⟨v, hup, hv⟩
    exact ⟨_, hup, if_pos hv⟩

theorem termsOf_congr {id' : ClassId}
    (h : ∀ v t, .commit v t ∈ U → (q.owner? v = some id' ↔ p.owner? v = some id)) :
    termsOf U q id' = termsOf U p id := by
  refine List.filterMap_congr fun up hup => ?_
  cases up with
  | merge u v => rfl
  | commit v t => simp only [h v t hup]

theorem termsOf_concat_merge : termsOf (U ++ [.merge u v]) p id = termsOf U p id := by
  simp [termsOf]

theorem termsOf_concat_commit : termsOf (U ++ [.commit v t]) p id =
    termsOf U p id ++ if p.owner? v = some id then [t] else [] := by
  rw [termsOf, termsOf, List.filterMap_append]
  split_ifs with h <;> simp [h]

/-- The survivor of a merge has the multiterms of both classes. -/
theorem Merged.termsOf_survivor {plan : Absorption} (h : Merged p q plan m)
    (hplan : plan.Sound p) : (termsOf U q plan.survivor).Perm
      (termsOf U p plan.survivor ++ termsOf U p plan.absorbed) := by
  induction U with
  | nil => exact .nil
  | cons up U ih =>
    cases up with
    | merge u v => exact ih
    | commit v t =>
      simp only [termsOf, List.filterMap_cons, h.owner?_eq_survivor_iff] at ih ⊢
      by_cases hs : p.owner? v = some plan.survivor
      · simpa [hs, hplan.ne] using ih
      · by_cases ha : p.owner? v = some plan.absorbed
        · simpa [ha, hplan.ne.symm] using (ih.cons t).trans List.perm_middle.symm
        · simpa [hs, ha] using ih

/-! ### Updates that are held -/

/-- The partition holds what the updates say and nothing else, and its counts have no bound. -/
structure Holds (U : List Update) (p : Partition) : Prop where
  wellFormed : p.WellFormed
  owned : ∀ up ∈ U, ∀ v ∈ up.targets, ∃ id, p.owner? v = some id
  owner_of_merge : ∀ {u v}, .merge u v ∈ U → p.owner? u = p.owner? v
  identified_of_owner : ∀ {u v id}, p.owner? u = some id → p.owner? v = some id → Identified U u v
  gathers : ∀ id ∈ p.liveClasses,
    Cell.Gathers ((termsOf U p id).map .nested) ⟨.empty, (p.classAt id).term⟩
  occurrences : p.occurrences.Perm (U.flatMap Update.vars)
  arithmetic : p.arithmetic = .unbounded

namespace Holds

/-- The classes are those of the merged variables. -/
theorem owner_eq_of_identified (h : Holds U p) (huv : Identified U u v) : p.owner? u = p.owner? v := by
  induction huv with
  | rel u v huv => exact h.owner_of_merge huv
  | refl u => rfl
  | symm u v _ ih => exact ih.symm
  | trans u v w _ _ ih ih' => exact ih.trans ih'

theorem owner?_eq_some_iff (h : Holds U p) (hu : p.owner? u = some id) :
    p.owner? v = some id ↔ Identified U u v :=
  ⟨fun hv => h.identified_of_owner hu hv, fun huv => (h.owner_eq_of_identified huv).symm.trans hu⟩

/-- Updates that are held do not conflict. -/
theorem not_conflicting (h : Holds U p) : ¬ Conflicting U := by
  rintro ⟨u, v, s, t, hs, ht, huv, hst⟩
  obtain ⟨id, hu⟩ := h.owned _ hs _ (List.mem_singleton_self _)
  have hv := (h.owner?_eq_some_iff hu).2 huv
  refine (h.gathers id (h.wellFormed.owner_mem_liveClasses hu)).not_conflict ?_ ?_ hst
  · exact List.mem_map_of_mem (mem_termsOf.2 ⟨_, hs, hu⟩)
  · exact List.mem_map_of_mem (mem_termsOf.2 ⟨_, ht, hv⟩)

theorem not_refuted (h : Holds U p) : ¬ Refuted p.varCount U := by
  rintro (⟨hup, hv, hle⟩ | hconflicting)
  · exact absurd (owner?_isSome_iff.1 (h.owned _ hup _ hv)) (not_lt.2 hle)
  · exact h.not_conflicting hconflicting

/-! ### What keeps updates held -/

theorem start : Holds [] (Partition.start .unbounded) where
  wellFormed := wellFormed_start .unbounded
  owned := nofun
  owner_of_merge := nofun
  identified_of_owner := nofun
  gathers := nofun
  occurrences := .nil
  arithmetic := rfl

/-- Counting occurrences changes nothing that is held. -/
theorem of_repriced {g : ClassId → ℕ} (h : Holds U p) (hq : Repriced p q g) : Holds U q where
  wellFormed := hq.wellFormed h.wellFormed
  owned := by
    rw [hq.owner]
    exact h.owned
  owner_of_merge := by
    rw [hq.owner]
    exact h.owner_of_merge
  identified_of_owner := by
    rw [hq.owner]
    exact h.identified_of_owner
  gathers := by
    rw [hq.liveClasses h.wellFormed.linked]
    intro id hid
    rw [termsOf_congr (p := p) fun _ _ _ => by rw [hq.owner], hq.classAt]
    exact h.gathers id hid
  occurrences := by
    rw [hq.occurrences h.wellFormed.linked]
    exact h.occurrences
  arithmetic := hq.arithmetic.trans h.arithmetic

/-- A new variable changes nothing that is held. -/
theorem of_extended (h : Holds U p) (hq : Extended p q) : Holds U q := by
  have hlinked := h.wellFormed.linked
  have hown : ∀ {v id}, p.owner? v = some id → q.owner? v = some id := fun hv =>
    (hq.owner?_eq_some_iff (h.wellFormed.owner_ne_new hv)).2 hv
  have htarget : ∀ up ∈ U, ∀ v ∈ up.targets, q.owner? v = p.owner? v := by
    intro up hup v hv
    obtain ⟨id, hid⟩ := h.owned up hup v hv
    rw [hid, hown hid]
  refine ⟨hq.wellFormed h.wellFormed, fun up hup v hv => ?_, fun {u v} huv => ?_, ?_, ?_, ?_,
    hq.arithmetic.trans h.arithmetic⟩
  · rw [htarget up hup v hv]
    exact h.owned up hup v hv
  · rw [htarget _ huv u (by simp [targets]), htarget _ huv v (by simp [targets])]
    exact h.owner_of_merge huv
  · intro u v id hu hv
    by_cases hid : id = ⟨p.records.size⟩
    · subst hid
      obtain rfl := hq.eq_of_owner_new h.wellFormed hu hv
      exact .refl _
    · rw [hq.owner?_eq_some_iff hid] at hu hv
      exact h.identified_of_owner hu hv
  · intro id hid
    rw [termsOf_congr (p := p) fun v t ht => by rw [htarget _ ht v (List.mem_singleton_self v)]]
    rw [hq.liveClasses hlinked, List.mem_append, List.mem_singleton] at hid
    obtain hid | rfl := hid
    · rw [hq.classAt_of_live hlinked hid]
      exact h.gathers id hid
    · -- nothing has been committed to the new class
      have hnil : termsOf U p ⟨p.records.size⟩ = [] := by
        refine List.eq_nil_iff_forall_not_mem.2 fun t ht => ?_
        obtain ⟨v, -, hv⟩ := mem_termsOf.1 ht
        exact h.wellFormed.owner_ne_new hv rfl
      rw [hnil, hq.classAt, if_pos rfl]
      exact Cell.gathers_nil
  · rw [hq.occurrences hlinked]
    exact h.occurrences

/-- A committed multiterm is held. -/
theorem of_commit (h : Holds U p) (hroot : p.owner? v = some root)
    (hm : Multiterm.mergeOption (p.classAt root).term (some t) = .ok m)
    (hq : Updated p q root { p.classAt root with term := m }) : Holds (U ++ [.commit v t]) q := by
  have hlinked := h.wellFormed.linked
  have hlive := h.wellFormed.owner_mem_liveClasses hroot
  constructor
  · exact hq.wellFormed h.wellFormed (h.wellFormed.owner_live hroot).2 rfl rfl
  · rw [hq.owner, List.forall_mem_append, List.forall_mem_singleton]
    exact ⟨h.owned, List.forall_mem_singleton.2 ⟨root, hroot⟩⟩
  · rw [hq.owner]
    intro u w huw
    exact h.owner_of_merge (by simpa using huw)
  · rw [hq.owner]
    exact fun hu hv => (h.identified_of_owner hu hv).mono (List.subset_append_left _ _)
  · intro id hid
    rw [hq.liveClasses hlinked] at hid
    have hgathers := h.gathers id hid
    rw [termsOf_concat_commit, termsOf_congr (p := p) fun _ _ _ => by rw [hq.owner], hq.owner,
      hq.classAt_of_live hlinked hid, hroot]
    -- only the class of the variable has got another multiterm
    by_cases hid : id = root
    · subst hid
      rw [if_pos rfl, if_pos rfl, List.map_append]
      exact Multiterm.gathers_mergeOption hgathers (Cell.gathers_singleton _) hm
    · rw [if_neg fun heq => hid (Option.some.inj heq).symm, if_neg hid, List.append_nil]
      exact hgathers
  · have hopen : root ∈ p.openClasses [] := mem_openClasses.2 ⟨hlive, List.not_mem_nil⟩
    have hperm := hq.openVars_perm_append hlinked hopen (Multiterm.vars_mergeOption hm)
    rw [openVars_nil, openVars_nil] at hperm
    rw [List.flatMap_append, List.flatMap_singleton]
    exact hperm.trans (h.occurrences.append_right _)
  · exact hq.arithmetic.trans h.arithmetic

/-- A merge of two variables that have one class already is held. -/
theorem of_similar (h : Holds U p) (hu : p.owner? u = some root) (hv : p.owner? v = some root)
    (hq : Similar p q) : Holds (U ++ [.merge u v]) q := by
  have hlinked := h.wellFormed.linked
  constructor
  · exact hq.wellFormed h.wellFormed
  · rw [hq.owner, List.forall_mem_append, List.forall_mem_singleton]
    refine ⟨h.owned, ?_⟩
    simp [targets, hu, hv]
  · rw [hq.owner]
    intro x y hxy
    obtain hxy | hxy := List.mem_append.1 hxy
    · exact h.owner_of_merge hxy
    · cases List.mem_singleton.1 hxy
      rw [hu, hv]
  · rw [hq.owner]
    exact fun hx hy => (h.identified_of_owner hx hy).mono (List.subset_append_left _ _)
  · intro id hid
    rw [hq.liveClasses hlinked] at hid
    rw [termsOf_concat_merge, termsOf_congr (p := p) fun _ _ _ => by rw [hq.owner], hq.classAt]
    exact h.gathers id hid
  · have hperm : q.openVars [] = p.openVars [] := hq.openVars hlinked
    rw [openVars_nil, openVars_nil] at hperm
    simpa [hperm, Update.vars] using h.occurrences
  · exact hq.arithmetic.trans h.arithmetic

/-- The variables of the two classes that a merge makes one are identified. -/
theorem identified_of_joins (h : Holds U p) {plan : Absorption} (hjoins : plan.Joins p u v) {w : Var}
    (hw : p.owner? w = some plan.survivor ∨ p.owner? w = some plan.absorbed) :
    Identified (U ++ [.merge u v]) u w := by
  have hold : ∀ {x id}, p.owner? x = some id → p.owner? w = some id →
      Identified (U ++ [.merge u v]) x w := fun hx hw =>
    (h.identified_of_owner hx hw).mono (List.subset_append_left _ _)
  -- the first variable is in one of the two classes, and the merge leads to the other one
  obtain ⟨hs, ha⟩ | ⟨hs, ha⟩ := hjoins
  · exact hw.elim (hold hs) fun hw => identified_concat_merge.trans (hold ha hw)
  · exact hw.elim (fun hw => identified_concat_merge.trans (hold hs hw)) (hold ha)

/-- A merge of two classes is held. -/
theorem of_unites (h : Holds U p) (hq : Unites p q u v id) : Holds (U ++ [.merge u v]) q := by
  obtain ⟨plan, m, hplan, hjoins, -, hm, hq⟩ := hq
  have hlinked := h.wellFormed.linked
  have hsurvivor := hplan.survivor_mem hlinked
  have habsorbed := hplan.absorbed_mem hlinked
  have hu := hq.owner?_of_joins hjoins
  have hv := hq.owner?_of_joins hjoins.symm
  constructor
  · exact hq.wellFormed h.wellFormed hplan
  · rw [List.forall_mem_append, List.forall_mem_singleton]
    refine ⟨fun up hup w hw => ?_, by simp [targets, hu, hv]⟩
    rw [owner?_isSome_iff, hq.varCount, ← owner?_isSome_iff]
    exact h.owned up hup w hw
  · intro x y hxy
    obtain hxy | hxy := List.mem_append.1 hxy
    · rw [hq.owner, hq.owner, h.owner_of_merge hxy]
    · cases List.mem_singleton.1 hxy
      rw [hu, hv]
  · intro x y id hx hy
    have hne := hq.ne_absorbed hplan hx
    by_cases hid : id = plan.survivor
    · subst hid
      rw [hq.owner?_eq_survivor_iff] at hx hy
      exact (h.identified_of_joins hjoins hx).symm.trans (h.identified_of_joins hjoins hy)
    · rw [hq.owner?_eq_some_iff hid hne] at hx hy
      exact (h.identified_of_owner hx hy).mono (List.subset_append_left _ _)
  · intro id hid
    obtain ⟨hlive, hne⟩ := (hq.mem_liveClasses hlinked hplan).1 hid
    rw [termsOf_concat_merge]
    by_cases hid : id = plan.survivor
    · subst hid
      rw [hq.classAt_survivor hplan]
      have hboth := Multiterm.gathers_mergeOption (h.gathers _ hsurvivor) (h.gathers _ habsorbed) hm
      rw [← List.map_append] at hboth
      exact hboth.perm ((hq.termsOf_survivor hplan).map _).symm
    · rw [termsOf_congr fun _ _ _ => hq.owner?_eq_some_iff hid hne,
        hq.classAt_of_ne ((mem_liveClasses hlinked).1 hlive).2 hid hne]
      exact h.gathers id hlive
  · have hperm := hq.openVars_perm hlinked hplan hm
      (mem_openClasses.2 ⟨hsurvivor, List.not_mem_nil⟩)
      (mem_openClasses.2 ⟨habsorbed, List.not_mem_nil⟩)
    rw [openVars_nil, openVars_nil] at hperm
    simpa [Update.vars] using hperm.trans h.occurrences
  · exact hq.arithmetic.trans h.arithmetic

/-! ### What makes an update fail -/

/-- A commit fails only at a multiterm of the class that conflicts with the new one. -/
theorem conflicting_of_commit (h : Holds U p) (hroot : p.owner? v = some root) {c : Clash}
    (hm : Multiterm.mergeOption (p.classAt root).term (some t) = .error c) :
    Conflicting (U ++ [.commit v t]) := by
  have hgathers := h.gathers root (h.wellFormed.owner_mem_liveClasses hroot)
  obtain ⟨d, hd, e, he, hde⟩ :=
    Multiterm.exists_conflict_of_mergeOption hgathers (Cell.gathers_singleton (.nested _)) hm
  obtain ⟨s, hs, rfl⟩ := List.mem_map.1 hd
  obtain ⟨u, hus, hu⟩ := mem_termsOf.1 hs
  obtain rfl := List.mem_singleton.1 he
  refine ⟨u, v, s, t, List.mem_append_left _ hus,
    List.mem_append_right _ (List.mem_singleton_self _), ?_, hde⟩
  exact (h.identified_of_owner hu hroot).mono (List.subset_append_left _ _)

/-- A merge fails only at multiterms of the two classes that conflict. -/
theorem conflicting_of_joins (h : Holds U p) {plan : Absorption} (hjoins : plan.Joins p u v)
    {c : Clash} (hm : Multiterm.mergeOption (p.classAt plan.survivor).term
      (p.classAt plan.absorbed).term = .error c) : Conflicting (U ++ [.merge u v]) := by
  have hlive : plan.survivor ∈ p.liveClasses ∧ plan.absorbed ∈ p.liveClasses := by
    obtain ⟨hs, ha⟩ | ⟨hs, ha⟩ := hjoins
    · exact ⟨h.wellFormed.owner_mem_liveClasses hs, h.wellFormed.owner_mem_liveClasses ha⟩
    · exact ⟨h.wellFormed.owner_mem_liveClasses hs, h.wellFormed.owner_mem_liveClasses ha⟩
  obtain ⟨d, hd, e, he, hde⟩ := Multiterm.exists_conflict_of_mergeOption
    (h.gathers _ hlive.1) (h.gathers _ hlive.2) hm
  obtain ⟨s, hs, rfl⟩ := List.mem_map.1 hd
  obtain ⟨t, ht, rfl⟩ := List.mem_map.1 he
  obtain ⟨x, hxs, hx⟩ := mem_termsOf.1 hs
  obtain ⟨y, hyt, hy⟩ := mem_termsOf.1 ht
  refine ⟨x, y, s, t, List.mem_append_left _ hxs, List.mem_append_left _ hyt, ?_, hde⟩
  exact (h.identified_of_joins hjoins (.inl hx)).symm.trans (h.identified_of_joins hjoins (.inr hy))

end Holds

/-! ### Running updates -/

/-- A variable that an update needs is found unless it does not exist. -/
theorem Update.findOwner_ends {up : Update} (hq : Similar p q) (hv : v ∈ up.targets) :
    Ends (findOwner v) q (fun id r => p.owner? v = some id ∧ Similar p r)
      fun _ _ => Refuted p.varCount (U ++ [up]) := by
  refine (hq.linked.findOwner_leaves v).mono ?_ ?_
  · rintro id r ⟨hid, hr⟩
    exact ⟨hq.owner ▸ hid, hq.trans hr⟩
  · rintro _ _ ⟨hle, -⟩
    exact .unknown (List.mem_append_right _ (List.mem_singleton_self up)) hv (hq.varCount ▸ hle)

/-- One more update is held, unless it is refuted together with the others. -/
theorem Holds.run_ends (h : Holds U p) (up : Update) :
    Ends up.run p (fun _ q => Holds (U ++ [up]) q ∧ q.varCount = p.varCount)
      fun _ _ => Refuted p.varCount (U ++ [up]) := by
  have hwell := h.wellFormed
  cases up with
  | merge u v =>
    refine Ends.bind (Update.findOwner_ends (.refl hwell.linked) (by simp [targets])) ?_
    rintro a q₁ ⟨ha, hq₁⟩
    refine Ends.bind (Update.findOwner_ends hq₁ (by simp [targets])) ?_
    rintro b q₂ ⟨hb, hq₂⟩
    refine Ends.bind ((hwell.merge_ends ha hb hq₂).mono (fun _ _ hq => hq) ?_) ?_
    · rintro _ _ ⟨plan, c, hjoins, -, hm⟩
      exact .conflicting (h.conflicting_of_joins hjoins hm)
    · rintro id r (⟨rfl, -, hr⟩ | hr)
      · exact ends_pure ⟨h.of_similar ha hb hr, hr.varCount⟩
      · have hholds := h.of_unites hr
        obtain ⟨plan, m, -, -, -, -, hr⟩ := hr
        exact ends_pure ⟨hholds, hr.varCount⟩
  | commit v t =>
    refine Ends.bind (Update.findOwner_ends (.refl hwell.linked) (by simp [targets])) ?_
    rintro id q ⟨hid, hq⟩
    obtain ⟨hlt, hroot⟩ := hwell.owner_live hid
    refine (hq.linked.commit_ends (hq.size ▸ hlt) t).mono ?_ ?_
    · rintro _ r ⟨m, hm, hr⟩
      rw [hq.classAt] at hm hr
      rw [hq.resolve, hroot] at hr
      exact ⟨h.of_commit hid hm (hq.trans_updated hr), hr.varCount.trans hq.varCount⟩
    · rintro _ _ ⟨c, -, hm⟩
      rw [hq.classAt] at hm
      exact .conflicting (h.conflicting_of_commit hid hm)

/-- All updates are held at the end, or they are refuted. -/
theorem Holds.runAll_ends (h : Holds [] p) (U : List Update) :
    Ends (runAll U) p (fun _ q => Holds U q ∧ q.varCount = p.varCount)
      fun _ _ => Refuted p.varCount U := by
  -- what has been done and what is still to come are all updates
  refine (Ends.forM (fun todo q => ∃ done, done ++ todo = U ∧ Holds done q ∧
    q.varCount = p.varCount) (fun up todo q => ?_) U ⟨[], rfl, h, rfl⟩).mono ?_ fun _ _ hr => hr
  · rintro ⟨done, rfl, hdone, hcount⟩
    have hall : done ++ up :: todo = done ++ [up] ++ todo := by simp
    rw [← hcount, hall]
    refine (hdone.run_ends up).mono ?_ fun _ _ hr => hr.mono (List.subset_append_left _ _)
    rintro _ r ⟨hr, hr'⟩
    exact ⟨_, rfl, hr, hr'⟩
  · rintro _ q ⟨done, hall, hq⟩
    rwa [← hall, List.append_nil]

end Multiequation.Partition
