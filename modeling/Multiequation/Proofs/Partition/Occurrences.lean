import Multiequation.Proofs.Multiterm.Shape
import Multiequation.Proofs.Partition.Operations

/-!
# Occurrences in partitions

The multiterms of a proper partition can be peeled and refer to variables that have a class. Counting
the occurrences of a proper partition can not fail, and afterwards the pending count of a class is the
number of occurrences of its members.
-/

namespace Multiequation.Partition

/-- Every multiterm of the partition can be peeled and refers to the first `n` variables only; every
other variable belongs to a class that has a multiterm. The counts have no bound. -/
structure Proper (p : Partition) (n : ℕ) : Prop extends WellFormed p where
  filled : ∀ {id t}, (p.classAt id).term = some t → t.Filled
  vars_lt : ∀ {id v}, v ∈ Multiterm.varsOfOption (p.classAt id).term → v.index < n
  isSome_of_le : ∀ {id v}, n ≤ v.index → p.owner? v = some id → (p.classAt id).term.isSome
  le_varCount : n ≤ p.varCount
  arithmetic : p.arithmetic = .unbounded

variable {p q : Partition} {id : ClassId} {v : Var} {vs ws : List Var} {n : ℕ}

namespace Proper

theorem exists_owner?_of_lt (h : p.Proper n) (hv : v.index < n) : ∃ id, p.owner? v = some id :=
  owner?_isSome_iff.2 (hv.trans_le h.le_varCount)

theorem of_similar (h : p.Proper n) (hq : Similar p q) : q.Proper n where
  toWellFormed := hq.wellFormed h.toWellFormed
  filled := by
    rw [hq.classAt]
    exact h.filled
  vars_lt := by
    rw [hq.classAt]
    exact h.vars_lt
  isSome_of_le := by
    rw [hq.owner, hq.classAt]
    exact h.isSome_of_le
  le_varCount := hq.varCount ▸ h.le_varCount
  arithmetic := hq.arithmetic.trans h.arithmetic

/-- A class may get another multiterm of the right shape, and any pending count. -/
theorem of_updated (h : p.Proper n) {root : ClassId} {cls : Class} (hq : Updated p q root cls)
    (hroot : p.resolve root = root) (hmembers : cls.members = (p.classAt root).members)
    (hcount : cls.memberCount = (p.classAt root).memberCount)
    (hfilled : ∀ t, cls.term = some t → t.Filled)
    (hvars : ∀ v ∈ Multiterm.varsOfOption cls.term, v.index < n)
    (hsome : (p.classAt root).term.isSome → cls.term.isSome) : q.Proper n where
  toWellFormed := hq.wellFormed h.toWellFormed hroot hmembers hcount
  filled := by
    intro j t
    rw [hq.classAt]
    split_ifs
    · exact hfilled t
    · exact h.filled
  vars_lt := by
    intro j u
    rw [hq.classAt]
    split_ifs
    · exact hvars u
    · exact h.vars_lt
  isSome_of_le := by
    intro j u hu hown
    rw [hq.owner] at hown
    have hold := h.isSome_of_le hu hown
    rw [hq.classAt]
    split_ifs with hj
    · rw [classAt_eq_of_resolve_eq (hj.trans hroot.symm)] at hold
      exact hsome hold
    · exact hold
  le_varCount := hq.varCount ▸ h.le_varCount
  arithmetic := hq.arithmetic.trans h.arithmetic

/-- A multiterm that can be peeled may be committed to a class. -/
theorem of_commit (h : p.Proper n) {root : ClassId} {t : Multiterm} {m : Option Multiterm}
    (hq : Updated p q root { p.classAt root with term := m }) (hroot : p.resolve root = root)
    (hm : Multiterm.mergeOption (p.classAt root).term (some t) = .ok m) (ht : t.Filled)
    (hvars : ∀ v ∈ t.vars, v.index < n) : q.Proper n := by
  refine h.of_updated hq hroot rfl rfl ?_ (fun v hv => ?_) fun hsome =>
    Multiterm.isSome_mergeOption hm (.inl hsome)
  · exact Multiterm.filled_mergeOption (fun _ => h.filled) (by rintro _ ⟨⟩; exact ht) hm
  · rcases List.mem_append.1 ((Multiterm.vars_mergeOption hm).subset hv) with hv | hv
    · exact h.vars_lt hv
    · exact hvars v hv

theorem of_merged (h : p.Proper n) {plan : Absorption} {m : Option Multiterm}
    (hplan : plan.Sound p) (hm : Multiterm.mergeOption (p.classAt plan.survivor).term
      (p.classAt plan.absorbed).term = .ok m) (hq : Merged p q plan m) : q.Proper n where
  toWellFormed := hq.wellFormed h.toWellFormed hplan
  filled := by
    intro j t
    rw [hq.classAt]
    split_ifs
    · exact Multiterm.filled_mergeOption (fun _ => h.filled) (fun _ => h.filled) hm t
    · exact h.filled
  vars_lt := by
    intro j u
    rw [hq.classAt]
    split_ifs
    · intro hu
      rcases List.mem_append.1 ((Multiterm.vars_mergeOption hm).subset hu) with hu | hu
      · exact h.vars_lt hu
      · exact h.vars_lt hu
    · exact h.vars_lt
  isSome_of_le := by
    intro j u hu hown
    rw [hq.owner] at hown
    obtain ⟨i, hi, hij⟩ := Option.map_eq_some_iff.1 hown
    have hold := h.isSome_of_le hu hi
    have hlive := (h.owner_live hi).2
    have hsome := Multiterm.isSome_mergeOption hm
    rw [hq.classAt, hq.resolve]
    split_ifs at hij with hia
    · subst hia hij
      rw [hplan.survivor_live, if_neg hplan.ne, if_pos rfl]
      exact hsome (.inr hold)
    · subst hij
      rw [hlive, if_neg hia]
      split_ifs with his
      · exact hsome (.inl (his ▸ hold))
      · exact hold
  le_varCount := hq.varCount ▸ h.le_varCount
  arithmetic := hq.arithmetic.trans h.arithmetic

/-- Without a bound the pending counts of two classes add up. -/
theorem pending_survivor (h : p.Proper n) {plan : Absorption} {m : Option Multiterm}
    (hplan : plan.Sound p) (hq : Merged p q plan m) : (q.classAt plan.survivor).pending =
      (p.classAt plan.survivor).pending + (p.classAt plan.absorbed).pending := by
  rw [hq.pending_survivor hplan, h.arithmetic, Arithmetic.add]

/-- A new variable counts as one of the first ones if all variables do. -/
theorem of_extended (h : p.Proper p.varCount) (hq : Extended p q) : q.Proper q.varCount where
  toWellFormed := hq.wellFormed h.toWellFormed
  filled := by
    intro j t
    rw [hq.classAt]
    split_ifs
    · rintro ⟨⟩
    · exact h.filled
  vars_lt := by
    intro j u
    rw [hq.classAt]
    split_ifs
    · rintro ⟨⟩
    · rw [hq.varCount]
      exact fun hu => (h.vars_lt hu).trans (Nat.lt_succ_self _)
  isSome_of_le hu hown := absurd (owner?_isSome_iff.1 ⟨_, hown⟩) (not_lt.2 hu)
  le_varCount := le_rfl
  arithmetic := hq.arithmetic.trans h.arithmetic

/-- A new variable need not be one of the first ones if its class gets a multiterm. -/
theorem of_extended_updated (h : p.Proper n) {r : Partition} {t : Multiterm} (hq : Extended p q)
    (hr : Updated q r ⟨p.records.size⟩ { q.classAt ⟨p.records.size⟩ with term := some t })
    (ht : t.Filled) (hvars : ∀ v ∈ t.vars, v.index < n) : r.Proper n := by
  have hroot : q.resolve ⟨p.records.size⟩ = ⟨p.records.size⟩ := by
    rw [hq.resolve, h.linked.resolve_eq_new_iff]
  have hclass : ∀ j, (r.classAt j).term =
      if j = ⟨p.records.size⟩ then some t else (p.classAt j).term := by
    intro j
    rw [hr.classAt, hq.resolve]
    simp only [h.linked.resolve_eq_new_iff]
    split_ifs with hj
    · rfl
    · rw [hq.classAt, if_neg hj]
  refine ⟨hr.wellFormed (hq.wellFormed h.toWellFormed) hroot rfl rfl, ?_, ?_, ?_, ?_,
    hr.arithmetic.trans (hq.arithmetic.trans h.arithmetic)⟩
  · intro j s
    rw [hclass]
    split_ifs
    · rintro ⟨⟩
      exact ht
    · exact h.filled
  · intro j u
    rw [hclass]
    split_ifs
    · exact hvars u
    · exact h.vars_lt
  · intro j u hu hown
    rw [hr.owner, hq.owner] at hown
    rw [hclass]
    split_ifs with hj
    · rfl
    · split_ifs at hown
      · exact absurd (Option.some.inj hown).symm hj
      · exact h.isSome_of_le hu hown
  · rw [hr.varCount, hq.varCount]
    exact h.le_varCount.trans (Nat.le_succ _)

end Proper

theorem wellFormed_start (arithmetic : Arithmetic) : (start arithmetic).WellFormed where
  linked := ⟨nofun, nofun, ⟨fun _ => 0, nofun⟩, nofun⟩
  mem_members := nofun
  members_nodup _ := List.nodup_nil
  memberCount_eq _ := rfl
  members_ne_nil := nofun

theorem proper_start : (start .unbounded).Proper 0 where
  toWellFormed := wellFormed_start .unbounded
  filled := nofun
  vars_lt := nofun
  isSome_of_le := nofun
  le_varCount := le_rfl
  arithmetic := rfl

theorem Extended.occurrences (h : Extended p q) (hp : p.Linked) :
    q.occurrences = p.occurrences := by
  rw [Partition.occurrences, h.liveClasses hp, List.flatMap_append, List.flatMap_singleton,
    h.classAt, if_pos rfl, Multiterm.varsOfOption_none, List.append_nil]
  exact List.flatMap_congr fun id hid => by rw [h.classAt_of_live hp hid]

/-! ### Occurrences of the members of a class -/

/-- The number of occurrences in a list of variables that the class `id` owns. -/
def occurrencesOf (p : Partition) (id : ClassId) (vs : List Var) : ℕ :=
  vs.countP fun v => p.owner? v = some id

theorem occurrencesOf_append (p : Partition) (id : ClassId) (vs ws : List Var) :
    p.occurrencesOf id (vs ++ ws) = p.occurrencesOf id vs + p.occurrencesOf id ws :=
  List.countP_append

theorem occurrencesOf_cons (p : Partition) (id : ClassId) (v : Var) (vs : List Var) :
    p.occurrencesOf id (v :: vs) =
      p.occurrencesOf id vs + if p.owner? v = some id then 1 else 0 := by
  simp [occurrencesOf, List.countP_cons]

theorem occurrencesOf_perm (h : vs.Perm ws) (id : ClassId) :
    p.occurrencesOf id vs = p.occurrencesOf id ws :=
  h.countP_eq _

theorem occurrencesOf_congr (h : q.owner? = p.owner?) (id : ClassId) (vs : List Var) :
    q.occurrencesOf id vs = p.occurrencesOf id vs := by
  rw [occurrencesOf, occurrencesOf, h]

theorem occurrencesOf_eq_zero_iff :
    p.occurrencesOf id vs = 0 ↔ ∀ v ∈ vs, p.owner? v ≠ some id := by
  simp [occurrencesOf, List.countP_eq_zero]

namespace Merged

variable {plan : Absorption} {term : Option Multiterm}

/-- The occurrences of both classes are occurrences of the survivor. -/
theorem occurrencesOf_survivor (h : Merged p q plan term) (hplan : plan.Sound p)
    (vs : List Var) : q.occurrencesOf plan.survivor vs =
      p.occurrencesOf plan.survivor vs + p.occurrencesOf plan.absorbed vs := by
  induction vs with
  | nil => rfl
  | cons v vs ih =>
    simp only [occurrencesOf_cons, ih, h.owner?_eq_survivor_iff]
    by_cases hs : p.owner? v = some plan.survivor
    · have ha : p.owner? v ≠ some plan.absorbed := by
        rw [hs]
        exact fun h => hplan.ne (Option.some.inj h)
      simp only [hs, true_or, if_true, if_neg (hs ▸ ha)]
      omega
    · simp only [hs, false_or, if_false]
      omega

theorem occurrencesOf_of_ne (h : Merged p q plan term) (hs : id ≠ plan.survivor)
    (ha : id ≠ plan.absorbed) (vs : List Var) :
    q.occurrencesOf id vs = p.occurrencesOf id vs := by
  simp only [occurrencesOf, h.owner?_eq_some_iff hs ha]

end Merged

/-! ### Counting -/

/-- `q` is `p` with the pending counts that `g` tells. -/
structure Repriced (p q : Partition) (g : ClassId → ℕ) : Prop extends SameClasses p q where
  classAt : ∀ j, q.classAt j = { p.classAt j with pending := g (p.resolve j) }

namespace Repriced

variable {g : ClassId → ℕ}

theorem refl (h : p.Linked) : Repriced p p fun id => (p.classAt id).pending where
  toSameClasses := (Similar.refl h).toSameClasses
  classAt j := by rw [classAt_resolve h]

theorem trans_similar {r : Partition} (h₁ : Repriced p q g) (h₂ : Similar q r) :
    Repriced p r g where
  toSameClasses := h₁.toSameClasses.trans h₂.toSameClasses
  classAt j := by rw [h₂.classAt, h₁.classAt]

/-- One pending count is changed. -/
theorem update (h : Repriced p q g) (hid : id.index < p.records.size) (f : ℕ → ℕ) :
    Repriced p (q.update id fun cls => { cls with pending := f cls.pending })
      (Function.update g (p.resolve id) (f (g (p.resolve id)))) := by
  have hlt : id.index < q.records.size := by rwa [h.size]
  have hup := h.linked.updated_update (fun cls => { cls with pending := f cls.pending }) hlt
  refine ⟨h.toSameClasses.trans hup.toSameClasses, fun j => ?_⟩
  rw [hup.classAt, h.resolve, Function.update_apply, h.classAt, h.classAt]
  split_ifs with hj
  · rw [classAt_eq_of_resolve_eq hj]
  · rfl

/-- An update of one pending count alone. -/
theorem of_updated {root : ClassId} {k : ℕ} (hp : p.Linked) (hroot : p.resolve root = root)
    (h : Updated p q root { p.classAt root with pending := k }) :
    Repriced p q (Function.update (fun id => (p.classAt id).pending) root k) where
  toSameClasses := h.toSameClasses
  classAt j := by
    rw [h.classAt, Function.update_apply]
    split_ifs with hj
    · rw [classAt_eq_of_resolve_eq (hj.trans hroot.symm)]
    · rw [classAt_resolve hp]

theorem wellFormed (h : Repriced p q g) (hp : p.WellFormed) : q.WellFormed :=
  h.toSameClasses.wellFormed hp (fun id => by rw [h.classAt]) fun id => by rw [h.classAt]

theorem proper (h : Repriced p q g) (hp : p.Proper n) : q.Proper n where
  toWellFormed := h.wellFormed hp.toWellFormed
  filled := by
    intro id t
    rw [h.classAt]
    exact hp.filled
  vars_lt := by
    intro id v
    rw [h.classAt]
    exact hp.vars_lt
  isSome_of_le := by
    intro id v
    rw [h.owner, h.classAt]
    exact hp.isSome_of_le
  le_varCount := h.varCount ▸ hp.le_varCount
  arithmetic := h.arithmetic.trans hp.arithmetic

theorem occurrences (h : Repriced p q g) (hp : p.Linked) : q.occurrences = p.occurrences := by
  rw [Partition.occurrences, h.liveClasses hp]
  exact List.flatMap_congr fun id _ => by rw [h.classAt]

end Repriced

/-- The pending counts of the listed classes are set to zero. -/
theorem Repriced.foldl_setPending {g : ClassId → ℕ} (hp : p.Linked) (ids : List ClassId)
    (h : Repriced p q g) (hids : ∀ id ∈ ids, id ∈ p.liveClasses) :
    Repriced p (ids.foldl (fun q id => q.setPending id 0) q)
      fun id => if id ∈ ids then 0 else g id := by
  induction ids generalizing q g with
  | nil => simpa using h
  | cons i ids ih =>
    rw [List.forall_mem_cons] at hids
    obtain ⟨hlt, hroot⟩ := (mem_liveClasses hp).1 hids.1
    have hstep := h.update hlt fun _ => 0
    rw [hroot] at hstep
    have hall := ih hstep hids.2
    refine ⟨hall.toSameClasses, fun j => ?_⟩
    refine (hall.classAt j).trans ?_
    by_cases hj : p.resolve j = i <;> simp [hj]

theorem Repriced.countOccurrence_ends {g : ClassId → ℕ} (hp : p.Linked) (h : Repriced p q g)
    (hv : p.owner? v = some id) :
    Ends (countOccurrence v) q
      (fun _ r => Repriced p r fun j =>
        if p.owner? v = some j then p.arithmetic.add (g j) 1 else g j)
      fun _ _ => False := by
  obtain ⟨i, hi, rfl⟩ := owner?_eq_some_iff.1 hv
  have hqv : q.owner? v = some (p.resolve i) := by rw [h.owner, hv]
  refine Ends.bind (h.linked.findOwner_ends hqv) ?_
  rintro _ r ⟨rfl, hr⟩
  have hlt := hp.resolve_lt (hp.owners_lt hi)
  have hup := (h.trans_similar hr).update hlt fun k => r.arithmetic.add k 1
  rw [hp.resolve_resolve] at hup
  refine ends_modify ⟨hup.toSameClasses, fun j => (hup.classAt j).trans ?_⟩
  have harithmetic : r.arithmetic = p.arithmetic := hr.arithmetic.trans h.arithmetic
  rw [Function.update_apply, hv, harithmetic]
  by_cases hj : p.resolve j = p.resolve i
  · simp [hj]
  · simp [hj, Ne.symm hj]

theorem mem_occurrences {v : Var} : v ∈ p.occurrences ↔
    ∃ id ∈ p.liveClasses, v ∈ Multiterm.varsOfOption (p.classAt id).term :=
  List.mem_flatMap

/-- Of the occurrences in `p` all but `vs` have been counted in `q`, without a bound. -/
def Counting (p : Partition) (vs : List Var) (q : Partition) : Prop :=
  ∃ counted, counted ++ vs = p.occurrences ∧ (∀ v ∈ counted, v.index < p.varCount) ∧
    ∃ g, Repriced p q g ∧ ∀ id ∈ p.liveClasses, g id = p.occurrencesOf id counted

/-- Counting begins with the pending counts zero. -/
theorem Linked.counting (h : p.Linked) : p.Counting p.occurrences
    (p.liveClasses.foldl (fun p id => p.setPending id 0) p) := by
  have hzero := (Repriced.refl h).foldl_setPending h p.liveClasses fun _ hid => hid
  exact ⟨[], rfl, nofun, _, hzero, fun _ hid => if_pos hid⟩

/-- One more occurrence is counted, which fails only at a variable that has not been created. -/
theorem Counting.countOccurrence_ends (h : p.Counting (v :: vs) q) (hp : p.Linked)
    (harithmetic : p.arithmetic = .unbounded) :
    Ends (countOccurrence v) q (fun _ r => p.Counting vs r)
      fun _ _ => ∃ v ∈ p.occurrences, p.varCount ≤ v.index := by
  obtain ⟨counted, hall, hlt, g, hg, hcount⟩ := h
  by_cases hv : v.index < p.varCount
  · obtain ⟨id, hid⟩ := owner?_isSome_iff.2 hv
    refine (hg.countOccurrence_ends hp hid).safe fun _ r hr => ?_
    refine ⟨counted ++ [v], by rwa [List.append_assoc], ?_, _, hr, fun j hj => ?_⟩
    · exact List.forall_mem_append.2 ⟨hlt, List.forall_mem_singleton.2 hv⟩
    · rw [harithmetic, Arithmetic.add, hcount j hj, occurrencesOf_append, occurrencesOf_cons]
      split_ifs <;> rfl
  · have hnone : q.owner? v = none := by
      rw [hg.owner, Option.eq_none_iff_forall_ne_some]
      exact fun id hid => hv (owner?_isSome_iff.1 ⟨id, hid⟩)
    have hmem : v ∈ p.occurrences := hall ▸ List.mem_append_right _ List.mem_cons_self
    refine Ends.bind (P := fun _ _ => False) ?_ fun _ _ hfalse => hfalse.elim
    exact .of_eq_error (findOwner_eq_error hnone) ⟨v, hmem, not_lt.1 hv⟩

/-- After counting without a bound, the pending count of a class is the number of occurrences of its
members. Counting fails only at a variable that has not been created. -/
theorem Linked.countOccurrences_ends (h : p.Linked) (harithmetic : p.arithmetic = .unbounded) :
    Ends countOccurrences p
      (fun _ q => (∃ g, Repriced p q g) ∧
        (∀ id ∈ q.liveClasses, (q.classAt id).pending = q.occurrencesOf id q.occurrences) ∧
        ∀ v ∈ p.occurrences, v.index < p.varCount)
      fun _ _ => ∃ v ∈ p.occurrences, p.varCount ≤ v.index := by
  refine ends_get_bind (ends_modify_bind ?_)
  refine (Ends.forM p.Counting (fun v vs q hq => hq.countOccurrence_ends h harithmetic)
    p.occurrences h.counting).mono (fun _ q hq => ?_) fun _ _ h => h
  obtain ⟨counted, hall, hlt, g, hg, hcount⟩ := hq
  rw [List.append_nil] at hall
  subst hall
  refine ⟨⟨g, hg⟩, fun id hid => ?_, hlt⟩
  rw [hg.liveClasses h] at hid
  rw [hg.occurrences h, hg.classAt, ((mem_liveClasses h).1 hid).2, occurrencesOf_congr hg.owner]
  exact hcount id hid

/-- Every variable that occurs in a proper partition can be counted. -/
theorem Proper.countOccurrences_ends (h : p.Proper n) :
    Ends countOccurrences p
      (fun _ q => (∃ g, Repriced p q g) ∧
        ∀ id ∈ q.liveClasses, (q.classAt id).pending = q.occurrencesOf id q.occurrences)
      fun _ _ => False := by
  refine (h.linked.countOccurrences_ends h.arithmetic).mono (fun _ q hq => ⟨hq.1, hq.2.1⟩) ?_
  rintro _ _ ⟨v, hv, hle⟩
  obtain ⟨id, -, hid⟩ := mem_occurrences.1 hv
  exact absurd ((h.vars_lt hid).trans_le h.le_varCount) (not_lt.2 hle)

end Multiequation.Partition
