import Multiequation.Proofs.Pool.PendingCounts

/-!
# The shape of solved forms

A run that leaves no class has closed every live class, so what holds of closed classes holds of all
classes in the end. The order of the discharges then is a topological one: the multiterm of a class
is over single variables, whose classes come later. Nothing in a run looks for cycles; that there are
none is due to the counts, which let no class be taken while a member of it is still referred to.
-/

namespace Multiequation

namespace SolvedForm

/-- The live classes are listed each once, each in front of the classes that it refers to. -/
structure Ordered (form : SolvedForm) : Prop where
  nodup : form.order.Nodup
  mem_order : ∀ id, id ∈ form.order ↔ id ∈ form.partition.liveClasses
  pending : ∀ id ∈ form.order, (form.partition.classAt id).pending = 0
  collapsed : ∀ id ∈ form.order, ∀ t, (form.partition.classAt id).term = some t → t.Collapsed
  later : ∀ id ∈ form.order, ∀ v ∈ Multiterm.varsOfOption (form.partition.classAt id).term,
    ∃ o ∈ form.order, form.partition.owner? v = some o ∧
      form.order.idxOf id < form.order.idxOf o

/-- A member of the class `b` occurs in the multiterm of the class `a`. -/
def Refers (form : SolvedForm) (a b : ClassId) : Prop :=
  ∃ v ∈ Multiterm.varsOfOption (form.partition.classAt a).term, form.partition.owner? v = some b

variable {form : SolvedForm} {a b : ClassId} {n : ℕ}

/-- When all live classes are closed, the order of closing is topological. -/
theorem ordered_of_closed (hp : form.partition.Proper n)
    (hclosed : form.partition.Closed form.order)
    (hall : ∀ id ∈ form.partition.liveClasses, id ∈ form.order) : form.Ordered := by
  refine ⟨hclosed.nodup, fun id => ⟨hclosed.live id, hall id⟩, hclosed.pending, hclosed.collapsed,
    fun id hid v hv => ?_⟩
  obtain ⟨o, ho⟩ := hp.exists_owner?_of_lt (hp.vars_lt hv)
  have hmem := hall o (hp.owner_mem_liveClasses ho)
  exact ⟨o, hmem, ho, hclosed.later id hid v hv o hmem ho⟩

namespace Ordered

theorem idxOf_lt_of_refers (h : form.Ordered) (ha : a ∈ form.order) (hab : form.Refers a b) :
    b ∈ form.order ∧ form.order.idxOf a < form.order.idxOf b := by
  obtain ⟨v, hv, hb⟩ := hab
  obtain ⟨o, ho, hown, hlt⟩ := h.later a ha v hv
  obtain rfl := Option.some.inj (hown.symm.trans hb)
  exact ⟨ho, hlt⟩

/-- Along references the places in the order grow. -/
theorem idxOf_lt_of_transGen (h : form.Ordered) (ha : a ∈ form.order)
    (hab : Relation.TransGen form.Refers a b) :
    b ∈ form.order ∧ form.order.idxOf a < form.order.idxOf b := by
  induction hab with
  | single hab => exact h.idxOf_lt_of_refers ha hab
  | tail _ hbc ih =>
    obtain ⟨hb, hab⟩ := ih
    obtain ⟨hc, hbc⟩ := h.idxOf_lt_of_refers hb hbc
    exact ⟨hc, hab.trans hbc⟩

/-- No listed class is referred to by way of itself. -/
theorem not_transGen_self (h : form.Ordered) (ha : a ∈ form.order) :
    ¬ Relation.TransGen form.Refers a a :=
  fun hcycle => (h.idxOf_lt_of_transGen ha hcycle).2.false

end Ordered

end SolvedForm

namespace Pool

theorem solvedForm_eq_ok {pool : Pool} {form : SolvedForm} (h : pool.solvedForm = .ok form) :
    ∃ order pool', discharge pool = .ok order pool' ∧ form = ⟨pool'.partition, order⟩ := by
  rw [solvedForm] at h
  cases hd : discharge pool with
  | ok order pool' =>
    rw [hd] at h
    exact ⟨order, pool', rfl, (Except.ok.inj h).symm⟩
  | error e pool' =>
    rw [hd] at h
    cases h

/-- Counting the occurrences of a reached partition succeeds, and a solved form of the pool made of
it lists the live classes in topological order: no class refers to itself, directly or not. -/
theorem ordered_of_reached {p : Partition} (h : p.Reached) (journal : Journal) :
    ∃ q, Partition.countOccurrences p = .ok ⟨⟩ q ∧
      ∀ form, (ofPartition q journal).solvedForm = .ok form →
        form.Ordered ∧ ∀ id ∈ form.order, ¬ Relation.TransGen form.Refers id id := by
  have hp := h.proper
  obtain ⟨_, q, hok, ⟨g, hq⟩, hcount⟩ := hp.countOccurrences_ends.exists_ok
  have hstart := invariant_ofPartition (hq.proper hp) hcount journal
  refine ⟨q, hok, fun form hform => ?_⟩
  obtain ⟨order, pool, hd, rfl⟩ := solvedForm_eq_ok hform
  obtain ⟨hheads, hdone⟩ := hstart.discharge_ends.of_ok hd
  have hinv := hheads.invariant hstart
  have hordered : SolvedForm.Ordered ⟨pool.partition, order⟩ :=
    SolvedForm.ordered_of_closed hinv.proper hinv.isClosed fun _ hid => hinv.mem_closed hdone hid
  exact ⟨hordered, fun _ hid => hordered.not_transGen_self hid⟩

/-- The first of four variables is claimed equal to a term with two variables and a term at its first
place. The classes of the two variables become one during the run, and it takes the term. -/
theorem ordered_of_shared_place : ∃ p q form, Partition.Reached p ∧
    Partition.countOccurrences p = .ok ⟨⟩ q ∧ (ofPartition q #[]).solvedForm = .ok form ∧
    form.order = [⟨0⟩, ⟨1⟩, ⟨3⟩] ∧ form.Ordered ∧
    ∀ id ∈ form.order, ¬ Relation.TransGen form.Refers id id := by
  let f : Symbol := ⟨"f", by decide⟩
  let g : Symbol := ⟨"g", by decide⟩
  let inner : Multiterm := ⟨g, [.var ⟨3⟩]⟩
  let t : Multiterm := ⟨f, [⟨⟨[⟨1⟩, ⟨2⟩]⟩, some inner⟩, .nested ⟨g, [.var ⟨2⟩]⟩]⟩
  let kept : Multiterm := ⟨f, [.var ⟨1⟩, .nested ⟨g, [.var ⟨2⟩]⟩]⟩
  let owners : Array ClassId := #[⟨0⟩, ⟨1⟩, ⟨2⟩, ⟨3⟩]
  let first : Multiterm → Record := fun t => .live ⟨⟨[⟨0⟩]⟩, 1, 0, some t⟩
  let single : ℕ → ℕ → Record := fun i k => .live ⟨⟨[⟨i⟩]⟩, 1, k, none⟩
  let p : Partition := ⟨owners, #[first t, single 1 0, single 2 0, single 3 0], .unbounded⟩
  let q : Partition := ⟨owners, #[first t, single 1 1, single 2 2, single 3 1], .unbounded⟩
  let form : SolvedForm := ⟨⟨owners, #[first kept, .live ⟨⟨[⟨1⟩, ⟨2⟩]⟩, 2, 0, some inner⟩,
    .absorbed ⟨1⟩, single 3 0], .unbounded⟩, [⟨0⟩, ⟨1⟩, ⟨3⟩]⟩
  have hp : p.Reached := by
    have ht : t.Filled := by
      simp [t, inner, Multiterm.allCells_mk, Cell.IsOccupied, Cell.var, Cell.nested]
    have hcommit : Partition.commit ⟨0⟩ t
        (Partition.start .unbounded).freshVar.2.freshVar.2.freshVar.2.freshVar.2 = .ok ⟨⟩ p := by cbv
    exact .committed (.created (.created (.created (.created .empty)))) (by decide) ht (by decide)
      hcommit
  have hq : Partition.countOccurrences p = .ok ⟨⟩ q := by cbv
  have hform : (ofPartition q #[]).solvedForm = .ok form := by cbv
  obtain ⟨s, hs, hordered⟩ := ordered_of_reached hp #[]
  cases hq.symm.trans hs
  exact ⟨p, q, form, hp, hq, hform, rfl, hordered form hform⟩

end Pool

end Multiequation
