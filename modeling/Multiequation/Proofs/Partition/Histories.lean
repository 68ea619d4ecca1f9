import Multiequation.Proofs.Partition.Occurrences
import Mathlib

/-!
# Histories of partitions

A partition is worked on by creating variables, merging and committing, setting and counting pending
occurrences, and finding classes and owners. An operation may fail, and work goes on with what it left.
Every operation keeps a partition well-formed, whether it fails or not: nothing but a new variable and
a merge changes which class owns what, and a merge whose multiterms clash has joined the two classes
already. So after any history the live classes are a partition of the variables.
-/

namespace Multiequation.Partition

/-! ### Operations -/

/-- What can be done with a partition. -/
inductive Operation
  | freshVar
  | merge (a b : ClassId)
  | commit (id : ClassId) (term : Multiterm)
  | setPending (id : ClassId) (pending : ℕ)
  | countOccurrences
  | find (id : ClassId)
  | findOwner (v : Var)

/-- The state that is left behind, also by a failure. -/
def leave {ε σ α : Type} (x : EStateM ε σ α) (s : σ) : σ :=
  match x s with
  | .ok _ s' => s'
  | .error _ s' => s'

/-- The partition after an operation. -/
def Operation.apply (p : Partition) : Operation → Partition
  | .freshVar => p.freshVar.2
  | .merge a b => leave (Partition.merge a b) p
  | .commit id term => leave (Partition.commit id term) p
  | .setPending id pending => p.setPending id pending
  | .countOccurrences => leave Partition.countOccurrences p
  | .find id => (p.find id).2
  | .findOwner v => leave (Partition.findOwner v) p

/-- The classes and variables that the operation is given exist, and a count is a word. -/
def Operation.IsValid (p : Partition) : Operation → Prop
  | .freshVar | .countOccurrences => True
  | .merge a b => a.index < p.records.size ∧ b.index < p.records.size
  | .setPending id pending => id.index < p.records.size ∧ pending < UInt64.size
  | .commit id _ | .find id => id.index < p.records.size
  | .findOwner v => v.index < p.varCount

instance Operation.decidableIsValid (p : Partition) : (op : Operation) → Decidable (op.IsValid p)
  | .freshVar | .countOccurrences => inferInstanceAs (Decidable True)
  | .merge _ _ | .setPending _ _ => inferInstanceAs (Decidable (_ ∧ _))
  | .commit _ _ | .find _ => inferInstanceAs (Decidable (_ < _))
  | .findOwner _ => inferInstanceAs (Decidable (_ < _))

/-- The partitions that valid operations lead to, beginning with the one without variables. -/
inductive Visited : Partition → Prop
  | empty : Visited .empty
  | apply {p : Partition} {op : Operation} : Visited p → op.IsValid p → Visited (op.apply p)

variable {p q : Partition} {id : ClassId} {v : Var} {vs : List Var}

theorem Visited.freshVar (h : p.Visited) : p.freshVar.2.Visited :=
  @Visited.apply p .freshVar h trivial

theorem leave_of_ends {ε σ α : Type} {x : EStateM ε σ α} {s : σ} {P : σ → Prop}
    (h : Ends x s (fun _ s' => P s') fun _ s' => P s') : P (leave x s) := by
  rw [leave]
  cases hx : x s with
  | ok a s' => exact h.of_ok hx
  | error e s' => exact h.of_error hx

/-! ### What operations keep -/

/-- An absorbed class stays absorbed. -/
def KeepsAbsorbed (p q : Partition) : Prop :=
  p.records.size ≤ q.records.size ∧
    ∀ id, id.index < p.records.size → id ∈ q.liveClasses → id ∈ p.liveClasses

theorem SameClasses.keepsAbsorbed (h : SameClasses p q) (hp : p.Linked) : KeepsAbsorbed p q :=
  ⟨h.size.ge, fun id _ hid => by rwa [h.liveClasses hp] at hid⟩

theorem Merged.keepsAbsorbed {plan : Absorption} {term : Option Multiterm}
    (h : Merged p q plan term) (hp : p.Linked) (hplan : plan.Sound p) : KeepsAbsorbed p q :=
  ⟨h.size.ge, fun _ _ hid => ((h.mem_liveClasses hp hplan).1 hid).1⟩

theorem Extended.keepsAbsorbed (h : Extended p q) (hp : p.Linked) : KeepsAbsorbed p q := by
  refine ⟨h.size ▸ Nat.le_succ _, fun id hlt hid => ?_⟩
  rw [h.liveClasses hp, List.mem_append, List.mem_singleton] at hid
  obtain hid | rfl := hid
  · exact hid
  · exact absurd hlt (lt_irrefl _)

/-- What every operation does to a well-formed partition. -/
structure Preserves (p q : Partition) : Prop where
  wellFormed : q.WellFormed
  keepsAbsorbed : KeepsAbsorbed p q

theorem Similar.preserves (h : Similar p q) (hp : p.WellFormed) : Preserves p q :=
  ⟨h.wellFormed hp, h.keepsAbsorbed hp.linked⟩

theorem Repriced.preserves {g : ClassId → ℕ} (h : Repriced p q g) (hp : p.WellFormed) :
    Preserves p q :=
  ⟨h.wellFormed hp, h.keepsAbsorbed hp.linked⟩

/-- The contents of a class may change, but not its members. -/
theorem Updated.preserves {cls : Class} (h : Updated p q (p.resolve id) cls) (hp : p.WellFormed)
    (hm : cls.members = (p.classAt id).members)
    (hc : cls.memberCount = (p.classAt id).memberCount) : Preserves p q := by
  have hroot := hp.linked.resolve_resolve id
  rw [← classAt_resolve hp.linked] at hm hc
  exact ⟨h.wellFormed hp hroot hm hc, h.keepsAbsorbed hp.linked⟩

theorem Merged.preserves {plan : Absorption} {term : Option Multiterm}
    (h : Merged p q plan term) (hp : p.WellFormed) (hplan : plan.Sound p) : Preserves p q :=
  ⟨h.wellFormed hp hplan, h.keepsAbsorbed hp.linked hplan⟩

/-! ### Operations that may fail -/

/-- A merge of two different classes joins them, whether their multiterms clash or not. -/
theorem Linked.merged_of_ne (h : p.Linked) {a b : ClassId} (ha : a.index < p.records.size)
    (hb : b.index < p.records.size) (hne : p.resolve a ≠ p.resolve b) :
    ∃ plan term, p.absorption? a b = some plan ∧ Merged p (leave (merge a b) p) plan term := by
  refine leave_of_ends (P := fun q => ∃ plan term, p.absorption? a b = some plan ∧
    Merged p q plan term) ((h.merge_leaves ha hb).mono ?_ ?_)
  · rintro _ q (⟨hab, -⟩ | ⟨plan, m, hplan, -, -, hq⟩)
    · exact absurd hab hne
    · exact ⟨plan, m, hplan, hq⟩
  · rintro _ q ⟨plan, c, hplan, -, -, hq⟩
    exact ⟨plan, none, hplan, hq⟩

/-- A merge of a class with itself changes nothing. -/
theorem Linked.similar_of_eq (h : p.Linked) {a b : ClassId} (ha : a.index < p.records.size)
    (hb : b.index < p.records.size) (heq : p.resolve a = p.resolve b) :
    Similar p (leave (merge a b) p) := by
  refine leave_of_ends (P := Similar p) ((h.merge_leaves ha hb).mono ?_ ?_)
  · rintro _ q (⟨-, -, hq⟩ | ⟨plan, m, hplan, -⟩)
    · exact hq
    · exact absurd heq (absorption?_eq_some hplan).1
  · rintro _ q ⟨plan, c, hplan, -⟩
    exact absurd heq (absorption?_eq_some hplan).1

/-- Counting an occurrence changes one pending count at most. -/
theorem Repriced.countOccurrence_leaves {g : ClassId → ℕ} (hp : p.Linked) (h : Repriced p q g)
    (v : Var) : Ends (countOccurrence v) q (fun _ r => ∃ g, Repriced p r g)
      fun _ r => ∃ g, Repriced p r g := by
  cases hv : p.owner? v with
  | some id => exact (h.countOccurrence_ends hp hv).safe fun _ r hr => ⟨_, hr⟩
  | none =>
    -- an unknown variable is noticed before anything is changed
    have hfind : Ends (findOwner v) q (fun _ _ => False) fun _ r => ∃ g, Repriced p r g :=
      .of_eq_error (findOwner_eq_error (h.owner ▸ hv)) ⟨g, h⟩
    exact Ends.bind hfind fun _ _ hfalse => hfalse.elim

/-- Counting all occurrences changes nothing but pending counts. -/
theorem Linked.countOccurrences_leaves (hp : p.Linked) :
    Ends countOccurrences p (fun _ q => ∃ g, Repriced p q g) fun _ q => ∃ g, Repriced p q g := by
  refine ends_get_bind ?_
  refine Ends.bind (P := fun _ q => ∃ g, Repriced p q g) (ends_modify ?_) fun _ q hq => ?_
  · exact ⟨_, (Repriced.refl hp).foldl_setPending hp p.liveClasses fun _ hid => hid⟩
  · refine Ends.forM (fun _ q => ∃ g, Repriced p q g) (fun v _ q hq => ?_) _ hq
    obtain ⟨g, hg⟩ := hq
    exact hg.countOccurrence_leaves hp v

/-! ### Histories -/

/-- What an operation leaves behind is well-formed, and absorbed classes stay absorbed. -/
theorem Operation.preserves {op : Operation} (hp : p.WellFormed) (hop : op.IsValid p) :
    Preserves p (op.apply p) := by
  cases op with
  | freshVar =>
    have hq := hp.linked.extended_freshVar
    exact ⟨hq.wellFormed hp, hq.keepsAbsorbed hp.linked⟩
  | merge a b =>
    by_cases hab : p.resolve a = p.resolve b
    · exact (hp.linked.similar_of_eq hop.1 hop.2 hab).preserves hp
    · obtain ⟨plan, m, hplan, hq⟩ := hp.linked.merged_of_ne hop.1 hop.2 hab
      exact hq.preserves hp (hp.linked.absorption_sound hop.1 hop.2 hplan)
  | commit id t =>
    refine leave_of_ends (P := Preserves p) ((hp.linked.commit_leaves hop t).mono ?_ ?_)
    · rintro _ q ⟨m, -, hq⟩
      exact hq.preserves hp rfl rfl
    · rintro _ q ⟨-, hq⟩
      exact hq.preserves hp rfl rfl
  | setPending id n =>
    have hq := hp.linked.updated_update (fun cls => { cls with pending := n }) hop.1
    exact hq.preserves hp rfl rfl
  | countOccurrences =>
    refine leave_of_ends (P := Preserves p) (hp.linked.countOccurrences_leaves.mono ?_ ?_)
    · rintro _ q ⟨g, hq⟩
      exact hq.preserves hp
    · rintro _ q ⟨g, hq⟩
      exact hq.preserves hp
  | find id => exact (hp.linked.similar_find id).preserves hp
  | findOwner v =>
    obtain ⟨id, hid⟩ := owner?_isSome_iff.2 hop
    refine leave_of_ends (P := Preserves p) ((hp.linked.findOwner_ends hid).safe ?_)
    rintro _ q ⟨-, hq⟩
    exact hq.preserves hp

theorem Visited.wellFormed (h : p.Visited) : p.WellFormed := by
  induction h with
  | empty => exact wellFormed_start .word
  | apply _ hop ih => exact (Operation.preserves ih hop).wellFormed

/-! ### What well-formed partitions are -/

theorem mem_vars : v ∈ p.vars ↔ v.index < p.varCount := by
  obtain ⟨i⟩ := v
  simp [vars]

end Multiequation.Partition
