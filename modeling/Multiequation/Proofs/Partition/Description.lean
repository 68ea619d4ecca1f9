import Multiequation.Proofs.Multiterm.Description
import Multiequation.Proofs.Partition.Occurrences

/-!
# What partitions say about values

A partition says that the variables of a class have one value, and that this value is as the
multiterm of the class says. Committing a multiterm adds what the multiterm says; merging two classes
adds that their variables have the same value. When either of them fails although the partition and
the addition are true, the domain has a clash.
-/

namespace Multiequation.Partition

/-- Each class has one value, which is as its multiterm says. -/
def Asserts (M : Domain) (w : Var → M.Object) (p : Partition) : Prop :=
  ∀ {v id}, p.owner? v = some id →
    (∀ u, p.owner? u = some id → w u = w v) ∧
      Multiterm.OptionDescribes M w (p.classAt id).term (w v)

variable {p q : Partition} {id root : ClassId} {u v : Var} {cls : Class} {M : Domain}
  {w : Var → M.Object}

theorem Asserts.eq (h : Asserts M w p) (hu : p.owner? u = some id) (hv : p.owner? v = some id) :
    w u = w v :=
  (h hv).1 u hu

theorem Asserts.term (h : Asserts M w p) (hv : p.owner? v = some id) :
    Multiterm.OptionDescribes M w (p.classAt id).term (w v) :=
  (h hv).2

/-- What a partition says depends on its own variables only. -/
theorem Proper.asserts_congr {n : ℕ} (h : p.Proper n) {w' : Var → M.Object}
    (hw : ∀ v : Var, v.index < p.varCount → w v = w' v) : Asserts M w p ↔ Asserts M w' p := by
  have hown : ∀ {v id}, p.owner? v = some id → w v = w' v := fun hv =>
    hw _ (owner?_isSome_iff.1 ⟨_, hv⟩)
  have hterm : ∀ {id} d, Multiterm.OptionDescribes M w (p.classAt id).term d ↔
      Multiterm.OptionDescribes M w' (p.classAt id).term d := by
    intro id d
    cases ht : (p.classAt id).term with
    | none => simp
    | some t =>
      simp only [Multiterm.optionDescribes_some]
      refine t.describes_congr fun v hv => hw v ?_
      have hmem : v ∈ Multiterm.varsOfOption (p.classAt id).term := by rwa [ht]
      exact (h.vars_lt hmem).trans_le h.le_varCount
  constructor
  · intro ha v id hv
    refine ⟨fun u hu => ?_, (hterm _).1 (hown hv ▸ ha.term hv)⟩
    rw [← hown hu, ← hown hv, ha.eq hu hv]
  · intro ha v id hv
    refine ⟨fun u hu => ?_, (hterm _).2 (hown hv ▸ ha.term hv)⟩
    rw [hown hu, hown hv, ha.eq hu hv]

theorem Similar.asserts_iff (h : Similar p q) : Asserts M w q ↔ Asserts M w p := by
  simp only [Asserts, h.owner, h.classAt]

theorem Repriced.asserts_iff {g : ClassId → ℕ} (h : Repriced p q g) : Asserts M w q ↔ Asserts M w p := by
  simp only [Asserts, h.owner, h.classAt]

/-- A new variable may have any value. -/
theorem Extended.asserts_iff (h : Extended p q) (hp : p.WellFormed) :
    Asserts M w q ↔ Asserts M w p := by
  constructor
  · intro hq v id hv
    have hne := hp.owner_ne_new hv
    obtain ⟨h₁, h₂⟩ := hq ((h.owner?_eq_some_iff hne).2 hv)
    rw [h.classAt, if_neg hne] at h₂
    exact ⟨fun u hu => h₁ u ((h.owner?_eq_some_iff hne).2 hu), h₂⟩
  · intro hp' v id hv
    by_cases hid : id = ⟨p.records.size⟩
    · subst hid
      rw [h.classAt, if_pos rfl]
      exact ⟨fun u hu => congrArg w (h.eq_of_owner_new hp hu hv), by simp⟩
    · simp only [h.owner?_eq_some_iff hid] at hv ⊢
      rw [h.classAt, if_neg hid]
      exact hp' hv

/-- Only what the changed class says has to be looked at again. -/
theorem Updated.asserts_iff (h : Updated p q root cls) (hp : p.WellFormed)
    (hv : p.owner? v = some root) {A B : Prop}
    (hterm : A ∧ Multiterm.OptionDescribes M w cls.term (w v) ↔
      B ∧ Multiterm.OptionDescribes M w (p.classAt root).term (w v)) :
    A ∧ Asserts M w q ↔ B ∧ Asserts M w p := by
  have hroot := (hp.owner_live hv).2
  have hqroot : q.classAt root = cls := by rw [h.classAt, if_pos hroot]
  have hother : ∀ {u j}, p.owner? u = some j → j ≠ root → q.classAt j = p.classAt j := by
    intro u j hu hj
    rw [h.classAt, if_neg ((hp.owner_live hu).2.symm ▸ hj)]
  constructor
  · rintro ⟨ha, hq⟩
    simp only [Asserts, h.owner] at hq
    have hd := (hq hv).2
    rw [hqroot] at hd
    obtain ⟨hb, hold⟩ := hterm.1 ⟨ha, hd⟩
    refine ⟨hb, fun {u j} hu => ⟨(hq hu).1, ?_⟩⟩
    by_cases hj : j = root
    · subst hj
      rwa [(hq hv).1 u hu]
    · rw [← hother hu hj]
      exact (hq hu).2
  · rintro ⟨hb, hp'⟩
    obtain ⟨ha, hnew⟩ := hterm.2 ⟨hb, (hp' hv).2⟩
    refine ⟨ha, ?_⟩
    simp only [Asserts, h.owner]
    intro u j hu
    refine ⟨(hp' hu).1, ?_⟩
    by_cases hj : j = root
    · subst hj
      rwa [hqroot, (hp' hv).1 u hu]
    · rw [hother hu hj]
      exact (hp' hu).2

/-- A committed multiterm describes the value of its class. -/
theorem Updated.asserts_commit {t : Multiterm} {m : Option Multiterm}
    (h : Updated p q root { p.classAt root with term := m }) (hp : p.WellFormed)
    (hv : p.owner? v = some root)
    (hm : Multiterm.mergeOption (p.classAt root).term (some t) = .ok m) :
    Asserts M w q ↔ Asserts M w p ∧ t.Describes M w (w v) := by
  have hterm : True ∧ Multiterm.OptionDescribes M w m (w v) ↔
      t.Describes M w (w v) ∧ Multiterm.OptionDescribes M w (p.classAt root).term (w v) := by
    rw [Multiterm.describes_mergeOption hm, Multiterm.optionDescribes_some]
    tauto
  rw [← true_and (Asserts M w q), h.asserts_iff hp hv hterm, and_comm]

/-- A merge says that the two classes have one value. -/
theorem Merged.asserts_iff {plan : Absorption} {m : Option Multiterm} (h : Merged p q plan m)
    (hp : p.WellFormed) (hplan : plan.Sound p)
    (hm : Multiterm.mergeOption (p.classAt plan.survivor).term (p.classAt plan.absorbed).term =
      .ok m) (hu : p.owner? u = some plan.survivor) (hv : p.owner? v = some plan.absorbed) :
    Asserts M w q ↔ Asserts M w p ∧ w u = w v := by
  have hqu : q.owner? u = some plan.survivor := h.owner?_eq_survivor_iff.2 (.inl hu)
  have hqv : q.owner? v = some plan.survivor := h.owner?_eq_survivor_iff.2 (.inr hv)
  have hother : ∀ {x j}, p.owner? x = some j → j ≠ plan.survivor → j ≠ plan.absorbed →
      q.classAt j = p.classAt j :=
    fun hx hs ha => h.classAt_of_ne (hp.owner_live hx).2 hs ha
  constructor
  · intro hq
    have hterm := hq.term hqu
    simp only [h.classAt_survivor hplan, Multiterm.describes_mergeOption hm] at hterm
    refine ⟨fun {x j} hx => ?_, hq.eq hqu hqv⟩
    have howner : ∀ {y}, p.owner? y = some j →
        q.owner? y = some (if j = plan.absorbed then plan.survivor else j) := by
      intro y hy
      rw [h.owner, hy, Option.map_some]
    refine ⟨fun y hy => hq.eq (howner hy) (howner hx), ?_⟩
    by_cases hs : j = plan.survivor
    · subst hs
      rw [hq.eq (h.owner?_eq_survivor_iff.2 (.inl hx)) hqu]
      exact hterm.1
    · by_cases ha : j = plan.absorbed
      · subst ha
        rw [hq.eq (h.owner?_eq_survivor_iff.2 (.inr hx)) hqu]
        exact hterm.2
      · rw [← hother hx hs ha]
        exact hq.term ((h.owner?_eq_some_iff hs ha).2 hx)
  · rintro ⟨hp', hw⟩ x j hx
    by_cases hs : j = plan.survivor
    · subst hs
      have hval : ∀ {y}, q.owner? y = some plan.survivor → w y = w u := by
        intro y hy
        rcases h.owner?_eq_survivor_iff.1 hy with hy | hy
        · exact hp'.eq hy hu
        · rw [hp'.eq hy hv, hw]
      refine ⟨fun y hy => (hval hy).trans (hval hx).symm, ?_⟩
      rw [h.classAt_survivor hplan, hval hx, Multiterm.describes_mergeOption hm]
      exact ⟨hp'.term hu, hw ▸ hp'.term hv⟩
    · have ha := h.ne_absorbed hplan hx
      have hx' := (h.owner?_eq_some_iff hs ha).1 hx
      refine ⟨fun y hy => hp'.eq ((h.owner?_eq_some_iff hs ha).1 hy) hx', ?_⟩
      rw [hother hx' hs ha]
      exact hp'.term hx'

/-! ### Merging the classes of two variables -/

/-- One of the two variables is a member of the surviving class, the other one of the absorbed
class. -/
def Absorption.Joins (plan : Absorption) (p : Partition) (u v : Var) : Prop :=
  (p.owner? u = some plan.survivor ∧ p.owner? v = some plan.absorbed) ∨
    (p.owner? v = some plan.survivor ∧ p.owner? u = some plan.absorbed)

theorem Merged.owner?_of_joins {plan : Absorption} {m : Option Multiterm} (h : Merged p q plan m)
    (hjoins : plan.Joins p u v) : q.owner? u = some plan.survivor :=
  h.owner?_eq_survivor_iff.2 (hjoins.imp And.left And.right)

theorem Merged.asserts_iff_of_joins {plan : Absorption} {m : Option Multiterm}
    (h : Merged p q plan m) (hp : p.WellFormed) (hplan : plan.Sound p)
    (hm : Multiterm.mergeOption (p.classAt plan.survivor).term (p.classAt plan.absorbed).term =
      .ok m) (hjoins : plan.Joins p u v) : Asserts M w q ↔ Asserts M w p ∧ w u = w v := by
  obtain ⟨hu, hv⟩ | ⟨hv, hu⟩ := hjoins
  · exact h.asserts_iff hp hplan hm hu hv
  · rw [h.asserts_iff hp hplan hm hv hu, eq_comm]

/-- Two classes whose multiterms clash can not have one value. -/
theorem Asserts.hasClash_of_joins (h : Asserts M w p) {plan : Absorption} {c : Clash}
    (hm : Multiterm.mergeOption (p.classAt plan.survivor).term (p.classAt plan.absorbed).term =
      .error c) (hjoins : plan.Joins p u v) (hw : w u = w v) : M.HasClash := by
  obtain ⟨hu, hv⟩ | ⟨hv, hu⟩ := hjoins
  · exact Multiterm.hasClash_of_mergeOption hm (h.term hu) (hw ▸ h.term hv)
  · exact Multiterm.hasClash_of_mergeOption hm (h.term hv) (hw ▸ h.term hu)

/-- In `q` the classes of two variables of `p` have become the class `id`. -/
def Unites (p q : Partition) (u v : Var) (id : ClassId) : Prop :=
  ∃ (plan : Absorption) (m : _), plan.Sound p ∧ plan.Joins p u v ∧ id = plan.survivor ∧
    Multiterm.mergeOption (p.classAt plan.survivor).term (p.classAt plan.absorbed).term = .ok m ∧
    Merged p q plan m

theorem Unites.arithmetic {id : ClassId} (h : Unites p q u v id) : q.arithmetic = p.arithmetic := by
  obtain ⟨plan, m, -, -, -, -, hq⟩ := h
  exact hq.arithmetic

theorem Unites.ne {id a b : ClassId} (h : Unites p q u v id) (hu : p.owner? u = some a)
    (hv : p.owner? v = some b) : a ≠ b := by
  obtain ⟨plan, -, hplan, ⟨hs, ha⟩ | ⟨hs, ha⟩, -⟩ := h
  · rintro rfl
    exact hplan.ne (Option.some.inj ((hs.symm.trans hu).trans (hv.symm.trans ha)))
  · rintro rfl
    exact hplan.ne (Option.some.inj ((hs.symm.trans hv).trans (hu.symm.trans ha)))

/-- Merging the classes of two variables joins them, unless they are one already. The classes may have
been looked up before. -/
theorem WellFormed.merge_ends (hp : p.WellFormed) {a b : ClassId} (hu : p.owner? u = some a)
    (hv : p.owner? v = some b) (hq : Similar p q) : Ends (merge a b) q
      (fun id r => (a = b ∧ id = a ∧ Similar p r) ∨ Unites p r u v id)
      fun e _ => ∃ (plan : Absorption) (c : _), plan.Joins p u v ∧ e = .clash c ∧
        Multiterm.mergeOption (p.classAt plan.survivor).term (p.classAt plan.absorbed).term =
          .error c := by
  obtain ⟨hlta, hra⟩ := hp.owner_live hu
  obtain ⟨hltb, hrb⟩ := hp.owner_live hv
  rw [← hq.size] at hlta hltb
  rw [← hq.resolve] at hra hrb
  have hjoins : ∀ {plan}, q.absorption? a b = some plan → plan.Joins p u v := by
    intro plan hplan
    obtain ⟨-, rfl | rfl⟩ := absorption?_eq_some hplan
    · exact .inl ⟨by rw [hu, hra], by rw [hv, hrb]⟩
    · exact .inr ⟨by rw [hv, hrb], by rw [hu, hra]⟩
  refine (hq.linked.merge_leaves hlta hltb).mono ?_ ?_
  · rintro id r (⟨hsame, hid, hr⟩ | ⟨plan, m, hplan, hid, hm, hr⟩)
    · exact .inl ⟨by rw [← hra, hsame, hrb], hid.trans hra, hq.trans hr⟩
    · have hsound := (hq.symm hp.linked).sound (hq.linked.absorption_sound hlta hltb hplan)
      rw [hq.classAt] at hm
      exact .inr ⟨plan, m, hsound, hjoins hplan, hid, hm, hq.trans_merged hr⟩
  · rintro e _ ⟨plan, c, hplan, he, hm, -⟩
    rw [hq.classAt] at hm
    exact ⟨plan, c, hjoins hplan, he, hm⟩

end Multiequation.Partition
