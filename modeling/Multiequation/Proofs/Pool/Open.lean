import Multiequation.Proofs.Partition.Description

/-!
# Open classes and open occurrences

While a pool is discharged its live classes are split in two: those that have been taken from the
ready queue, in order, and the open ones. The occurrences in the multiterms of the open classes are
the open occurrences. A closed class does not change any more; its multiterm is collapsed, and it
refers to open classes and to classes closed later only.
-/

namespace Multiequation.Partition

/-- The live classes that are not listed as closed. -/
def openClasses (p : Partition) (closed : List ClassId) : List ClassId :=
  p.liveClasses.filter (· ∉ closed)

/-- The occurrences of variables in the multiterms of the open classes. -/
def openVars (p : Partition) (closed : List ClassId) : List Var :=
  (p.openClasses closed).flatMap fun id => Multiterm.varsOfOption (p.classAt id).term

variable {p q : Partition} {id root : ClassId} {v : Var} {cls : Class} {closed : List ClassId}
  {n : ℕ}

theorem mem_openClasses : id ∈ p.openClasses closed ↔ id ∈ p.liveClasses ∧ id ∉ closed := by
  simp [openClasses]

theorem nodup_openClasses (p : Partition) (closed : List ClassId) :
    (p.openClasses closed).Nodup :=
  p.nodup_liveClasses.filter _

theorem openVars_nil (p : Partition) : p.openVars [] = p.occurrences := by
  have hall : p.openClasses [] = p.liveClasses := List.filter_eq_self.2 fun _ _ => by simp
  rw [openVars, hall, occurrences]

/-! ### Changing open classes -/

/-- The open occurrences are those of one open class and those of the others. -/
theorem openVars_perm (hid : id ∈ p.openClasses closed) :
    (p.openVars closed).Perm (Multiterm.varsOfOption (p.classAt id).term ++
      ((p.openClasses closed).erase id).flatMap fun j =>
        Multiterm.varsOfOption (p.classAt j).term) := by
  have := (List.perm_cons_erase hid).flatMap_right fun j =>
    Multiterm.varsOfOption (p.classAt j).term
  exact this.trans (.of_eq List.flatMap_cons)

theorem openClasses_congr (h : SameClasses p q) (hp : p.Linked) (closed : List ClassId) :
    q.openClasses closed = p.openClasses closed := by
  rw [openClasses, openClasses, h.liveClasses hp]

theorem Similar.openVars (h : Similar p q) (hp : p.Linked) :
    q.openVars closed = p.openVars closed := by
  rw [Partition.openVars, Partition.openVars, openClasses_congr h.toSameClasses hp closed, h.classAt]

theorem Repriced.openVars {g : ClassId → ℕ} (h : Repriced p q g) (hp : p.Linked) :
    q.openVars closed = p.openVars closed := by
  rw [Partition.openVars, Partition.openVars, openClasses_congr h.toSameClasses hp closed]
  exact List.flatMap_congr fun j _ => by rw [h.classAt]

theorem Updated.classAt_of_live (h : Updated p q root cls) (hp : p.Linked) {j : ClassId}
    (hj : j ∈ p.liveClasses) : q.classAt j = if j = root then cls else p.classAt j := by
  rw [h.classAt, ((mem_liveClasses hp).1 hj).2]

/-- A change of the multiterm alone leaves the counts as they are. -/
theorem Updated.pending_of_live (h : Updated p q root cls) (hp : p.Linked)
    (hcls : cls.pending = (p.classAt root).pending) {j : ClassId} (hj : j ∈ p.liveClasses) :
    (q.classAt j).pending = (p.classAt j).pending := by
  rw [h.classAt_of_live hp hj]
  split_ifs with hroot
  · rw [hcls, hroot]
  · rfl

/-- An open class other than the changed one holds what it held. -/
theorem Updated.classAt_of_mem_erase (h : Updated p q root cls) (hp : p.Linked) {j : ClassId}
    (hj : j ∈ (p.openClasses closed).erase root) : q.classAt j = p.classAt j := by
  obtain ⟨hne, hopen⟩ := (p.nodup_openClasses closed).mem_erase_iff.1 hj
  rw [h.classAt_of_live hp (mem_openClasses.1 hopen).1, if_neg hne]

theorem Updated.flatMap_erase (h : Updated p q root cls) (hp : p.Linked) :
    (((p.openClasses closed).erase root).flatMap fun j =>
      Multiterm.varsOfOption (q.classAt j).term) =
    ((p.openClasses closed).erase root).flatMap fun j =>
      Multiterm.varsOfOption (p.classAt j).term :=
  List.flatMap_congr fun j hj => by rw [h.classAt_of_mem_erase hp hj]

/-- The open occurrences after the multiterm of an open class has changed. -/
theorem Updated.openVars_perm (h : Updated p q root cls) (hp : p.Linked)
    (hroot : root ∈ p.openClasses closed) :
    (q.openVars closed).Perm (Multiterm.varsOfOption cls.term ++
      ((p.openClasses closed).erase root).flatMap fun j =>
        Multiterm.varsOfOption (p.classAt j).term) := by
  have hlive := (mem_openClasses.1 hroot).1
  have hclasses := openClasses_congr h.toSameClasses hp closed
  have hq : root ∈ q.openClasses closed := hclasses ▸ hroot
  have := Partition.openVars_perm hq
  rwa [hclasses, h.flatMap_erase hp, h.classAt_of_live hp hlive, if_pos rfl] at this

/-- What the multiterm of an open class gains is gained by the open occurrences. -/
theorem Updated.openVars_perm_append (h : Updated p q root cls) (hp : p.Linked)
    (hroot : root ∈ p.openClasses closed) {vs : List Var}
    (hcls : (Multiterm.varsOfOption cls.term).Perm
      (Multiterm.varsOfOption (p.classAt root).term ++ vs)) :
    (q.openVars closed).Perm (p.openVars closed ++ vs) := by
  refine List.perm_iff_count.2 fun v => ?_
  have hq := (h.openVars_perm hp hroot).count_eq v
  have hp := (Partition.openVars_perm hroot).count_eq v
  have hcls := hcls.count_eq v
  simp only [List.count_append] at hq hp hcls ⊢
  omega

/-- Closing a class takes it out of the open ones. -/
theorem openClasses_concat (p : Partition) (closed : List ClassId) (id : ClassId) :
    p.openClasses (closed ++ [id]) = (p.openClasses closed).erase id := by
  rw [(p.nodup_openClasses closed).erase_eq_filter, openClasses, openClasses, List.filter_filter]
  refine List.filter_congr fun j _ => ?_
  by_cases hj : j = id <;> simp [hj]

theorem mem_openClasses_concat :
    id ∈ p.openClasses (closed ++ [root]) ↔ id ∈ p.openClasses closed ∧ id ≠ root := by
  rw [openClasses_concat, (p.nodup_openClasses closed).mem_erase_iff, and_comm]

namespace Merged

variable {plan : Absorption} {m : Option Multiterm}

theorem openClasses (h : Merged p q plan m) (hp : p.Linked) (hplan : plan.Sound p)
    (closed : List ClassId) : q.openClasses closed = (p.openClasses closed).erase plan.absorbed := by
  rw [(p.nodup_openClasses closed).erase_eq_filter, Partition.openClasses, Partition.openClasses,
    h.liveClasses hp hplan, p.nodup_liveClasses.erase_eq_filter, List.filter_filter,
    List.filter_filter]
  exact List.filter_congr fun _ _ => Bool.and_comm _ _

theorem mem_openClasses (h : Merged p q plan m) (hp : p.Linked) (hplan : plan.Sound p) :
    id ∈ q.openClasses closed ↔ id ∈ p.openClasses closed ∧ id ≠ plan.absorbed := by
  rw [h.openClasses hp hplan, (p.nodup_openClasses closed).mem_erase_iff, and_comm]

/-- A merge of two open classes keeps the open occurrences. -/
theorem openVars_perm (h : Merged p q plan m) (hp : p.Linked) (hplan : plan.Sound p)
    (hm : Multiterm.mergeOption (p.classAt plan.survivor).term (p.classAt plan.absorbed).term =
      .ok m) (hs : plan.survivor ∈ p.openClasses closed)
    (ha : plan.absorbed ∈ p.openClasses closed) :
    (q.openVars closed).Perm (p.openVars closed) := by
  have hclasses := h.openClasses hp hplan closed
  have hs' : plan.survivor ∈ (p.openClasses closed).erase plan.absorbed :=
    (p.nodup_openClasses closed).mem_erase_iff.2 ⟨hplan.ne, hs⟩
  have hother : ∀ j ∈ ((p.openClasses closed).erase plan.absorbed).erase plan.survivor,
      Multiterm.varsOfOption (q.classAt j).term = Multiterm.varsOfOption (p.classAt j).term := by
    intro j hj
    obtain ⟨hjs, hj⟩ := ((p.nodup_openClasses closed).erase _).mem_erase_iff.1 hj
    obtain ⟨hja, hj⟩ := (p.nodup_openClasses closed).mem_erase_iff.1 hj
    have hlive := ((Partition.mem_liveClasses hp).1 (Partition.mem_openClasses.1 hj).1).2
    rw [h.classAt_of_ne hlive hjs hja]
  have hqs : plan.survivor ∈ q.openClasses closed := hclasses ▸ hs'
  have hq := Partition.openVars_perm hqs
  rw [hclasses, h.classAt_survivor hplan, List.flatMap_congr hother] at hq
  have hrest := (List.perm_cons_erase hs').flatMap_right fun j =>
    Multiterm.varsOfOption (p.classAt j).term
  rw [List.flatMap_cons] at hrest
  calc q.openVars closed
    _ |>.Perm _ := hq
    _ |>.Perm _ := ((Multiterm.vars_mergeOption hm).trans List.perm_append_comm).append_right _
    _ |>.Perm _ := .of_eq (List.append_assoc _ _ _)
    _ |>.Perm _ := hrest.symm.append_left _
    _ |>.Perm _ := (Partition.openVars_perm ha).symm

end Merged

/-! ### Closed classes -/

/-- The closed classes are live and not waited for; what they refer to is open or closed later. -/
structure Closed (p : Partition) (closed : List ClassId) : Prop where
  nodup : closed.Nodup
  live : ∀ id ∈ closed, id ∈ p.liveClasses
  pending : ∀ id ∈ closed, (p.classAt id).pending = 0
  collapsed : ∀ id ∈ closed, ∀ t, (p.classAt id).term = some t → t.Collapsed
  later : ∀ id ∈ closed, ∀ v ∈ Multiterm.varsOfOption (p.classAt id).term, ∀ o ∈ closed,
    p.owner? v = some o → closed.idxOf id < closed.idxOf o

theorem closed_nil (p : Partition) : Closed p [] :=
  ⟨.nil, nofun, nofun, nofun, nofun⟩

namespace Closed

/-- Whatever leaves the closed classes alone keeps them closed. -/
theorem congr (h : Closed p closed) (hlive : ∀ id ∈ closed, id ∈ q.liveClasses)
    (hclass : ∀ id ∈ closed, q.classAt id = p.classAt id)
    (howner : ∀ id ∈ closed, ∀ v, q.owner? v = some id ↔ p.owner? v = some id) :
    Closed q closed where
  nodup := h.nodup
  live := hlive
  pending id hid := by
    rw [hclass id hid]
    exact h.pending id hid
  collapsed id hid := by
    rw [hclass id hid]
    exact h.collapsed id hid
  later id hid v hv o ho hown := by
    rw [hclass id hid] at hv
    exact h.later id hid v hv o ho ((howner o ho v).1 hown)

theorem of_similar (h : Closed p closed) (hp : p.Linked) (hq : Similar p q) : Closed q closed :=
  h.congr (fun id hid => by rw [hq.liveClasses hp]; exact h.live id hid)
    (fun id _ => by rw [hq.classAt]) fun id _ v => by rw [hq.owner]

theorem of_updated (h : Closed p closed) (hp : p.Linked) (hq : Updated p q root cls)
    (hroot : root ∈ p.openClasses closed) : Closed q closed := by
  refine h.congr (fun id hid => ?_) (fun id hid => ?_) fun id _ v => by rw [hq.owner]
  · rw [hq.liveClasses hp]
    exact h.live id hid
  · rw [hq.classAt_of_live hp (h.live id hid), if_neg]
    rintro rfl
    exact (mem_openClasses.1 hroot).2 hid

theorem of_merged (h : Closed p closed) (hp : p.Linked) {plan : Absorption}
    (hplan : plan.Sound p) {m : Option Multiterm} (hq : Merged p q plan m)
    (hs : plan.survivor ∈ p.openClasses closed) (ha : plan.absorbed ∈ p.openClasses closed) :
    Closed q closed := by
  have hns : ∀ id ∈ closed, id ≠ plan.survivor := by
    rintro id hid rfl
    exact (mem_openClasses.1 hs).2 hid
  have hna : ∀ id ∈ closed, id ≠ plan.absorbed := by
    rintro id hid rfl
    exact (mem_openClasses.1 ha).2 hid
  refine h.congr (fun id hid => ?_) (fun id hid => ?_) fun id hid v =>
    hq.owner?_eq_some_iff (hns id hid) (hna id hid)
  · exact (hq.mem_liveClasses hp hplan).2 ⟨h.live id hid, hna id hid⟩
  · exact hq.classAt_of_ne ((mem_liveClasses hp).1 (h.live id hid)).2 (hns id hid) (hna id hid)

/-- An open class that is not waited for is closed next, once its multiterm has been peeled. -/
theorem concat (h : Closed p closed) (hp : p.Linked) (hq : Updated p q root cls)
    (hroot : root ∈ p.openClasses closed) (hpending : cls.pending = 0)
    (hcollapsed : ∀ t, cls.term = some t → t.Collapsed)
    (hfree : ∀ v ∈ Multiterm.varsOfOption cls.term, ∀ o ∈ closed ++ [root],
      p.owner? v ≠ some o) : Closed q (closed ++ [root]) := by
  have hlive := hq.liveClasses hp
  have hkeep := h.of_updated hp hq hroot
  obtain ⟨hlive_root, hnew⟩ := mem_openClasses.1 hroot
  have hcls : q.classAt root = cls := by
    rw [hq.classAt_of_live hp hlive_root, if_pos rfl]
  constructor
  · exact List.nodup_append.2 ⟨h.nodup, List.nodup_singleton _, by
      rintro a ha _ hb rfl
      exact hnew (List.mem_singleton.1 hb ▸ ha)⟩
  · rw [hlive]
    simp only [List.forall_mem_append, List.forall_mem_singleton]
    exact ⟨h.live, hlive_root⟩
  · simp only [List.forall_mem_append, List.forall_mem_singleton, hcls]
    exact ⟨hkeep.pending, hpending⟩
  · simp only [List.forall_mem_append, List.forall_mem_singleton, hcls]
    exact ⟨hkeep.collapsed, hcollapsed⟩
  · intro id hid v hv o ho hown
    rcases List.mem_append.1 hid with hold | hid
    · rw [List.idxOf_append_of_mem hold]
      rcases List.mem_append.1 ho with ho | ho
      · rw [List.idxOf_append_of_mem ho]
        exact hkeep.later id hold v hv o ho hown
      · obtain rfl := List.mem_singleton.1 ho
        rw [List.idxOf_append_of_notMem hnew]
        exact (List.idxOf_lt_length_of_mem hold).trans_le (Nat.le_add_right _ _)
    · obtain rfl := List.mem_singleton.1 hid
      rw [hcls] at hv
      exact absurd (hq.owner ▸ hown) (hfree v hv o ho)

end Closed

end Multiequation.Partition
