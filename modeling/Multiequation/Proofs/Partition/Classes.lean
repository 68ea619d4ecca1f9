import Multiequation.Proofs.Outcome
import Multiequation.Proofs.Partition.Links

/-!
# Well-formed partitions

In a well-formed partition every variable has one class that owns it, and a class lists exactly the
variables it owns. Reading and writing classes keeps a partition well-formed. What an operation does
is told by what can be observed afterwards: which class a number resolves to, which class owns a
variable, and what a class holds.
-/

namespace Multiequation

theorem ClassId.ext {a b : ClassId} (h : a.index = b.index) : a = b := by
  cases a; cases b; cases h; rfl

namespace Partition

/-- Every class is the set of variables that it owns. -/
structure WellFormed (p : Partition) : Prop where
  linked : p.Linked
  mem_members : ∀ {id : ClassId} {v : Var}, id.index < p.records.size →
    (v ∈ (p.classAt id).members.toList ↔ p.owner? v = some (p.resolve id))
  members_nodup : ∀ id : ClassId, (p.classAt id).members.toList.Nodup
  memberCount_eq : ∀ id : ClassId, (p.classAt id).memberCount = (p.classAt id).members.length
  members_ne_nil : ∀ {id : ClassId}, id.index < p.records.size →
    (p.classAt id).members.toList ≠ []

/-- `q` has the classes and owners of `p` and counts as `p` does; it may differ in the contents of the
classes. -/
structure SameClasses (p q : Partition) : Prop where
  size : q.records.size = p.records.size
  varCount : q.varCount = p.varCount
  linked : q.Linked
  resolve : q.resolve = p.resolve
  owner : q.owner? = p.owner?
  arithmetic : q.arithmetic = p.arithmetic

/-- `q` looks like `p`. -/
structure Similar (p q : Partition) : Prop extends SameClasses p q where
  classAt : q.classAt = p.classAt

/-- `q` looks like `p` but for the contents of the class `root`. -/
structure Updated (p q : Partition) (root : ClassId) (cls : Class) : Prop
    extends SameClasses p q where
  classAt : ∀ j, q.classAt j = if p.resolve j = root then cls else p.classAt j

variable {p q r : Partition} {id root : ClassId} {v : Var} {cls : Class}

/-- Work on the partition of a larger state ends as it does on the partition alone. -/
theorem lift_ends {σ α : Type} {part : σ → Partition} {put : σ → Partition → σ} {x : PartitionM α}
    {s : σ} {Q : α → σ → Prop} {R : Failure → σ → Prop}
    (h : Ends x (part s) (fun a p => Q a (put s p)) fun e p => R e (put s p)) :
    Ends (lift part put x) s Q R := by
  cases hx : x (part s) with
  | ok a p =>
    have hrun : lift part put x s = .ok a (put s p) := by simp only [lift, hx]
    exact .of_eq_ok hrun (h.of_ok hx)
  | error e p =>
    have hrun : lift part put x s = .error e (put s p) := by simp only [lift, hx]
    exact .of_eq_error hrun (h.of_error hx)

/-! ### Observations -/

theorem classAt_eq_of_resolve_eq {j : ClassId} (h : p.resolve id = p.resolve j) :
    p.classAt id = p.classAt j := by
  rw [classAt, classAt, h]

theorem classAt_of_ge (hid : p.records.size ≤ id.index) : p.classAt id = default := by
  rw [classAt, resolve_of_live (forward?_of_ge hid), contents?, Array.getElem?_eq_none hid]
  rfl

theorem classAt_resolve (h : p.Linked) (id : ClassId) : p.classAt (p.resolve id) = p.classAt id :=
  classAt_eq_of_resolve_eq (h.resolve_resolve id)

/-- Links are read off the records alone. -/
theorem forward?_congr (h : q.records = p.records) : q.forward? = p.forward? := by
  funext id
  rw [forward?, forward?, h]

theorem contents?_congr (h : q.records = p.records) : q.contents? = p.contents? := by
  funext id
  rw [contents?, contents?, h]

theorem resolve_congr (hs : q.records.size = p.records.size) (hf : q.forward? = p.forward?) :
    q.resolve = p.resolve := by
  have hwithin : ∀ n id, q.resolveWithin n id = p.resolveWithin n id := by
    intro n
    induction n with
    | zero => exact fun _ => rfl
    | succ n ih =>
      intro id
      rw [resolveWithin, resolveWithin, hf]
      split
      · exact ih _
      · rfl
  funext id
  rw [resolve, resolve, hs, hwithin]

theorem linked_congr (hs : q.records.size = p.records.size) (hf : q.forward? = p.forward?)
    (ho : ∀ {i : ℕ} {id : ClassId}, q.owners[i]? = some id → id.index < p.records.size)
    (hc : ∀ {id next}, p.forward? id = some next → q.contents? id = some default)
    (h : p.Linked) : q.Linked := by
  constructor
  · rw [hs]
    exact ho
  · rw [hs, hf]
    exact h.target_lt
  · rw [hf]
    exact h.acyclic
  · rw [hf]
    exact hc

theorem owner?_eq_some_iff : p.owner? v = some root ↔
    ∃ id, p.owners[v.index]? = some id ∧ p.resolve id = root := by
  simp [owner?]

theorem owner?_isSome_iff : (∃ id, p.owner? v = some id) ↔ v.index < p.varCount := by
  simp only [owner?_eq_some_iff, varCount]
  constructor
  · rintro ⟨_, id, hid, -⟩
    exact (Array.getElem?_eq_some_iff.1 hid).1
  · intro h
    exact ⟨_, _, Array.getElem?_eq_getElem h, rfl⟩

/-- Which classes are live is told by what numbers resolve to. -/
theorem isLive_congr (hp : p.Linked) (hq : q.Linked) (h : q.resolve = p.resolve) :
    q.isLive = p.isLive := by
  funext id
  rw [Bool.eq_iff_iff, hq.isLive_iff, hp.isLive_iff, h]

theorem mem_liveClasses (h : p.Linked) :
    id ∈ p.liveClasses ↔ id.index < p.records.size ∧ p.resolve id = id := by
  rw [← h.isLive_iff]
  obtain ⟨i⟩ := id
  simp [liveClasses]

theorem Linked.resolve_mem_liveClasses (h : p.Linked) (hid : id.index < p.records.size) :
    p.resolve id ∈ p.liveClasses :=
  (mem_liveClasses h).2 ⟨h.resolve_lt hid, h.resolve_resolve id⟩

/-- The live classes are listed in the order of their numbers. -/
theorem pairwise_liveClasses (p : Partition) :
    p.liveClasses.Pairwise fun a b => a.index < b.index :=
  (List.pairwise_lt_range.map ClassId.mk fun _ _ h => h).filter _

theorem nodup_liveClasses (p : Partition) : p.liveClasses.Nodup := by
  refine ((List.nodup_range).map fun i j h => ?_).filter _
  exact ClassId.mk.inj h

namespace WellFormed

/-- The owner of a variable is a live class. -/
theorem owner_live (h : p.WellFormed) (hv : p.owner? v = some root) :
    root.index < p.records.size ∧ p.resolve root = root := by
  obtain ⟨id, hid, rfl⟩ := owner?_eq_some_iff.1 hv
  exact ⟨h.linked.resolve_lt (h.linked.owners_lt hid), h.linked.resolve_resolve id⟩

/-- No variable is owned by the class that is created next. -/
theorem owner_ne_new (h : p.WellFormed) (hv : p.owner? v = some root) :
    root ≠ ⟨p.records.size⟩ := by
  rintro rfl
  exact (h.owner_live hv).1.false

theorem owner_mem_liveClasses (h : p.WellFormed) (hv : p.owner? v = some root) :
    root ∈ p.liveClasses :=
  (mem_liveClasses h.linked).2 (h.owner_live hv)

/-- Every live class owns a variable. -/
theorem exists_owner (h : p.WellFormed) (hid : id ∈ p.liveClasses) :
    ∃ v ∈ (p.classAt id).members.toList, p.owner? v = some id := by
  obtain ⟨hlt, hroot⟩ := (mem_liveClasses h.linked).1 hid
  obtain ⟨v, hv⟩ := List.exists_mem_of_ne_nil _ (h.members_ne_nil hlt)
  exact ⟨v, hv, by rw [(h.mem_members hlt).1 hv, hroot]⟩

theorem mem_members_of_live (h : p.WellFormed) (hid : id ∈ p.liveClasses) :
    v ∈ (p.classAt id).members.toList ↔ p.owner? v = some id := by
  obtain ⟨hlt, hroot⟩ := (mem_liveClasses h.linked).1 hid
  rw [h.mem_members hlt, hroot]

/-- No variable is a member of two live classes. -/
theorem nodup_flatMap_members (h : p.WellFormed) {ids : List ClassId} (hids : ids.Nodup)
    (hlive : ∀ id ∈ ids, id ∈ p.liveClasses) :
    (ids.flatMap fun id => (p.classAt id).members.toList).Nodup := by
  rw [List.nodup_flatMap]
  refine ⟨fun id _ => h.members_nodup id, hids.imp_of_mem fun {i j} hi hj hne v hvi hvj => hne ?_⟩
  exact Option.some.inj (((h.mem_members_of_live (hlive i hi)).1 hvi).symm.trans
    ((h.mem_members_of_live (hlive j hj)).1 hvj))

end WellFormed

namespace SameClasses

theorem trans (h₁ : SameClasses p q) (h₂ : SameClasses q r) : SameClasses p r where
  size := h₂.size.trans h₁.size
  varCount := h₂.varCount.trans h₁.varCount
  linked := h₂.linked
  resolve := h₂.resolve.trans h₁.resolve
  owner := h₂.owner.trans h₁.owner
  arithmetic := h₂.arithmetic.trans h₁.arithmetic

theorem liveClasses (h : SameClasses p q) (hp : p.Linked) : q.liveClasses = p.liveClasses := by
  unfold Partition.liveClasses
  rw [h.size, isLive_congr hp h.linked h.resolve]

/-- As long as the members stay, the contents of classes may change freely. -/
theorem wellFormed (h : SameClasses p q) (hp : p.WellFormed)
    (hm : ∀ id, (q.classAt id).members = (p.classAt id).members)
    (hc : ∀ id, (q.classAt id).memberCount = (p.classAt id).memberCount) : q.WellFormed where
  linked := h.linked
  mem_members hid := by
    rw [hm, h.owner, h.resolve]
    exact hp.mem_members (h.size ▸ hid)
  members_nodup id := by
    rw [hm]
    exact hp.members_nodup id
  memberCount_eq id := by
    rw [hm, hc]
    exact hp.memberCount_eq id
  members_ne_nil hid := by
    rw [hm]
    exact hp.members_ne_nil (h.size ▸ hid)

end SameClasses

namespace Similar

theorem refl (h : p.Linked) : Similar p p :=
  ⟨⟨rfl, rfl, h, rfl, rfl, rfl⟩, rfl⟩

theorem trans (h₁ : Similar p q) (h₂ : Similar q r) : Similar p r :=
  ⟨h₁.toSameClasses.trans h₂.toSameClasses, h₂.classAt.trans h₁.classAt⟩

theorem symm (h : Similar p q) (hp : p.Linked) : Similar q p :=
  ⟨⟨h.size.symm, h.varCount.symm, hp, h.resolve.symm, h.owner.symm, h.arithmetic.symm⟩,
    h.classAt.symm⟩

theorem wellFormed (h : Similar p q) (hp : p.WellFormed) : q.WellFormed :=
  h.toSameClasses.wellFormed hp (fun id => by rw [h.classAt]) fun id => by rw [h.classAt]

theorem debt (h : Similar p q) (hp : p.Linked) : q.debt = p.debt := by
  rw [Partition.debt, Partition.debt, h.liveClasses hp, h.classAt]

theorem trans_updated (h₁ : Similar p q) (h₂ : Updated q r root cls) : Updated p r root cls :=
  ⟨h₁.toSameClasses.trans h₂.toSameClasses, fun j => by rw [h₂.classAt, h₁.resolve, h₁.classAt]⟩

end Similar

namespace Updated

/-- Of two updates of one class the second stays. -/
theorem trans {cls' : Class} (h₁ : Updated p q root cls) (h₂ : Updated q r root cls') :
    Updated p r root cls' := by
  refine ⟨h₁.toSameClasses.trans h₂.toSameClasses, fun j => ?_⟩
  rw [h₂.classAt, h₁.resolve, h₁.classAt]
  split_ifs <;> rfl

/-- An update that keeps the members keeps the partition well-formed. -/
theorem wellFormed (h : Updated p q root cls) (hp : p.WellFormed) (hroot : p.resolve root = root)
    (hm : cls.members = (p.classAt root).members)
    (hc : cls.memberCount = (p.classAt root).memberCount) : q.WellFormed := by
  refine h.toSameClasses.wellFormed hp (fun j => ?_) fun j => ?_
  · rw [h.classAt]
    split_ifs with hj
    · rw [hm, classAt_eq_of_resolve_eq (hj.trans hroot.symm)]
    · rfl
  · rw [h.classAt]
    split_ifs with hj
    · rw [hc, classAt_eq_of_resolve_eq (hj.trans hroot.symm)]
    · rfl

theorem classAt_self (h : Updated p q (p.resolve id) cls) : q.classAt id = cls := by
  rw [h.classAt, if_pos rfl]

end Updated

/-! ### Finding -/

theorem Relinked.classAt (h : Relinked p q) : q.classAt = p.classAt := by
  funext id
  rw [Partition.classAt, Partition.classAt, h.resolve, h.contents]

theorem owners_find (p : Partition) (id : ClassId) : (p.find id).2.owners = p.owners :=
  owners_compressWithin _ _ _ _

namespace Linked

/-- Finding a class changes nothing that can be observed. -/
theorem similar_find (h : p.Linked) (id : ClassId) : Similar p (p.find id).2 := by
  have hr : Relinked p (p.find id).2 := h.relinked_compressWithin _ id
  refine ⟨⟨hr.size, by rw [varCount, owners_find, varCount], hr.linked, hr.resolve, ?_,
    hr.arithmetic⟩, hr.classAt⟩
  funext v
  rw [owner?, owner?, owners_find, hr.resolve]

/-- Finding a class can not fail. -/
theorem findRoot_ends {R : Failure → Partition → Prop} (h : p.Linked) (id : ClassId) :
    Ends (modifyGet (·.find id)) p (fun root q => root = p.resolve id ∧ Similar p q) R :=
  ends_modifyGet ⟨rfl, h.similar_find id⟩

/-- An entry for the owner of a variable may be replaced by the live class behind it. -/
theorem similar_setOwner (h : p.Linked) (hv : p.owners[v.index]? = some id)
    (hr : q.records = p.records) (ho : q.owners = p.owners.setIfInBounds v.index (p.resolve id))
    (ha : q.arithmetic = p.arithmetic) : Similar p q := by
  have hsize : q.records.size = p.records.size := by rw [hr]
  have hresolve := resolve_congr hsize (forward?_congr hr)
  have hcontents := contents?_congr hr
  refine ⟨⟨hsize, by simp [varCount, ho], linked_congr hsize (forward?_congr hr) ?_
    (fun hf => hcontents ▸ h.emptied hf) h, hresolve, ?_, ha⟩, ?_⟩
  · intro i j hj
    rw [ho, Array.getElem?_setIfInBounds] at hj
    split_ifs at hj
    · cases hj
      exact h.resolve_lt (h.owners_lt hv)
    · exact h.owners_lt hj
  · funext u
    rw [owner?, owner?, hresolve, ho, Array.getElem?_setIfInBounds]
    split_ifs with hu hlt
    · rw [← hu, hv, Option.map_some, Option.map_some, h.resolve_resolve]
    · exact absurd (Array.getElem?_eq_some_iff.1 hv).1 hlt
    · rfl
  · funext j
    rw [Partition.classAt, Partition.classAt, hresolve, hcontents]

end Linked

theorem findOwner_eq (h : p.owners[v.index]? = some id) : findOwner v p =
    .ok (p.resolve id) { (p.find id).2 with
      owners := (p.find id).2.owners.setIfInBounds v.index (p.resolve id) } := by
  unfold findOwner
  rw [get_bind, h]
  rfl

/-- Finding an owner changes nothing that can be observed. -/
theorem Linked.findOwner_ends (h : p.Linked) (hv : p.owner? v = some root) :
    Ends (findOwner v) p (fun id q => id = root ∧ Similar p q) fun _ _ => False := by
  obtain ⟨id, hid, rfl⟩ := owner?_eq_some_iff.1 hv
  have hfind := h.similar_find id
  refine .of_eq_ok (findOwner_eq hid) ⟨rfl, hfind.trans ?_⟩
  have howner : (p.find id).2.owners[v.index]? = some id := by rwa [owners_find]
  refine hfind.linked.similar_setOwner howner rfl ?_ rfl
  rw [hfind.resolve]

theorem findOwner_eq_error (h : p.owner? v = none) :
    findOwner v p = .error (.unknownVariable v) p := by
  have hnone : p.owners[v.index]? = none := by rwa [owner?, Option.map_eq_none_iff] at h
  unfold findOwner
  rw [get_bind, hnone]
  rfl

/-- Only a variable that has been created has an owner to be found. -/
theorem Linked.findOwner_leaves (h : p.Linked) (v : Var) :
    Ends (findOwner v) p (fun id q => p.owner? v = some id ∧ Similar p q)
      fun _ q => p.varCount ≤ v.index ∧ q = p := by
  cases hv : p.owner? v with
  | none =>
    refine .of_eq_error (findOwner_eq_error hv) ⟨not_lt.1 fun hlt => ?_, rfl⟩
    obtain ⟨id, hid⟩ := owner?_isSome_iff.2 hlt
    cases hv.symm.trans hid
  | some id =>
    refine (h.findOwner_ends hv).safe ?_
    rintro _ q ⟨rfl, hq⟩
    exact ⟨rfl, hq⟩

theorem Linked.findOwner_ok (h : p.Linked) (hok : findOwner v p = .ok root q) :
    p.owner? v = some root ∧ Similar p q :=
  (h.findOwner_leaves v).of_ok hok

/-! ### Changing the contents of a class -/

theorem forward?_updateLive (p : Partition) (id : ClassId) (f : Class → Class) :
    (p.updateLive id f).forward? = p.forward? := by
  funext j
  rw [forward?, forward?, updateLive, Array.getElem?_modify]
  split_ifs with hj
  · cases p.records[j.index]? <;> rfl
  · rfl

theorem contents?_updateLive (p : Partition) (id : ClassId) (f : Class → Class) (j : ClassId) :
    (p.updateLive id f).contents? j =
      if id = j then (p.contents? j).map f else p.contents? j := by
  obtain ⟨i⟩ := id
  obtain ⟨k⟩ := j
  simp only [contents?, updateLive, Array.getElem?_modify, ClassId.mk.injEq]
  split_ifs with hj
  · cases p.records[k]? <;> rfl
  · rfl

theorem size_records_updateLive (p : Partition) (id : ClassId) (f : Class → Class) :
    (p.updateLive id f).records.size = p.records.size := by
  simp [updateLive]

/-- Changing the contents of a live class changes nothing else. -/
theorem Linked.updated_updateLive (h : p.Linked) {id : ClassId} (f : Class → Class)
    (hid : id.index < p.records.size) (hroot : p.resolve id = id) :
    Updated p (p.updateLive id f) id (f (p.classAt id)) := by
  have hlive : p.forward? id = none := hroot ▸ h.forward?_resolve id
  have hfwd := forward?_updateLive p id f
  have hsize := size_records_updateLive p id f
  have hresolve := resolve_congr hsize hfwd
  have hlinked : (p.updateLive id f).Linked := by
    refine linked_congr hsize hfwd h.owners_lt (fun {j k} hjk => ?_) h
    have hne : id ≠ j := by
      rintro rfl
      cases hlive.symm.trans hjk
    rw [contents?_updateLive, if_neg hne, h.emptied hjk]
  refine ⟨⟨hsize, rfl, hlinked, hresolve, ?_, rfl⟩, fun j => ?_⟩
  · funext u
    rw [owner?, owner?, hresolve]
    rfl
  · obtain ⟨cls, hcls⟩ := exists_contents? hid
    rw [Partition.classAt, hresolve, contents?_updateLive]
    by_cases hj : p.resolve j = id
    · rw [if_pos hj.symm, if_pos hj, hj, hcls, Partition.classAt, hroot, hcls]
      rfl
    · rw [if_neg (Ne.symm hj), if_neg hj, Partition.classAt]

/-- Changing the contents of the class behind a number changes nothing else. -/
theorem Linked.updated_update (h : p.Linked) (f : Class → Class)
    (hid : id.index < p.records.size) :
    Updated p (p.update id f) (p.resolve id) (f (p.classAt id)) := by
  have hfind := h.similar_find id
  have hlt : (p.resolve id).index < (p.find id).2.records.size := by
    rw [hfind.size]
    exact h.resolve_lt hid
  have hup := hfind.linked.updated_updateLive f hlt (by rw [hfind.resolve, h.resolve_resolve])
  rw [hfind.classAt, classAt_resolve h] at hup
  exact hfind.trans_updated hup

/-- A number that is not that of a class has nothing to be changed. -/
theorem update_of_ge (hid : p.records.size ≤ id.index) (f : Class → Class) : p.update id f = p := by
  have hlive := forward?_of_ge hid
  have hcompress : ∀ n root, compressWithin root n id p = p := by
    rintro (_ | n) root
    · rfl
    · rw [compressWithin, hlive]
  have hmodify : ∀ g : Record → Record, p.records.modify id.index g = p.records := by
    intro g
    refine Array.ext_getElem? fun i => ?_
    rw [Array.getElem?_modify]
    split_ifs with hi
    · rw [Array.getElem?_eq_none (hi ▸ hid), Option.map_none]
    · rfl
  simp only [update, find, resolve_of_live hlive, hcompress, updateLive, hmodify]

end Partition

end Multiequation
